import SolidScript.Proofs.Evaluation.Steady

/-!
# Plans of operators

A built-in operator either refuses its call or results in a plan, and there are few kinds of these:
a body that has no use for children, or children that are joined, by one of four joins, and then
changed. What is true of all operators is read off this list.
-/

namespace SolidScript

open Plan Geometry

/-- The errors of an operator that is called at a site. -/
inductive CallSite.Refusal (site : CallSite) : RuntimeError → Prop where
  | invalid (detail : String) : Refusal site (site.invalid detail)
  | font (detail : String) : Refusal site ⟨.font site.name detail, some site.pos⟩
  | mismatch : Refusal site site.dimensionMismatch

/-! ## Checks -/

namespace Check

variable {α β : Type}

/-- A check results in something with `Q`, or else it refuses its call. -/
def Meets (site : CallSite) (Q : α → Prop) (x : Check α) : Prop :=
  match x.run.value with
  | .ok a => Q a
  | .error e => site.Refusal e

variable {site : CallSite} {Q : α → Prop} {R : β → Prop}

/-- What is returned is as promised. -/
lemma Meets.pure {a : α} (ha : Q a) : Meets site Q (pure a : Check α) := ha

/-- To refuse is always allowed. -/
lemma Meets.refuse {e : RuntimeError} (he : site.Refusal e) : Meets site Q (throw e : Check α) := he

/-- One check after another. -/
lemma Meets.bind {x : Check α} {f : α → Check β} (hx : Meets site Q x)
    (hf : ∀ a, Q a → Meets site R (f a)) : Meets site R (x >>= f) := by
  unfold Meets at hx
  show match (ExceptT.bindCont f x.run.value).value with | .ok b => R b | .error e => site.Refusal e
  cases hvalue : x.run.value with
  | ok a =>
    rw [hvalue] at hx
    exact hf a hx
  | error e =>
    rw [hvalue] at hx
    exact hx

/-- A check promises less, too. -/
lemma Meets.mono {Q' : α → Prop} (hQ : ∀ a, Q a → Q' a) {x : Check α} (hx : Meets site Q x) :
    Meets site Q' x := by
  unfold Meets at hx ⊢
  cases hvalue : x.run.value with
  | ok a =>
    rw [hvalue] at hx
    exact hQ a hx
  | error e =>
    rw [hvalue] at hx
    exact hx

/-- A check that refuses the call in some cases, and goes on in the others. -/
lemma Meets.guarded {c : Prop} [Decidable c] {e : RuntimeError} {f : α → Check β} {x : Check β}
    (he : site.Refusal e) (hx : Meets site R x) :
    Meets site R (if c then throw e >>= f else x) := by
  split
  · exact (Meets.refuse he : Meets site (fun _ => False) _).bind fun _ h => h.elim
  · exact hx

end Check

open Check (Meets)

/-! ## Plans -/

/-- The bodies that operators start from. -/
inductive Geometry.IsPrimitive : Geometry Float → Prop where
  | sphere (radius : Float) : IsPrimitive (.sphere radius)
  | box (size : Vec3 Float) : IsPrimitive (.box size)
  | frustum (r1 r2 height : Float) : IsPrimitive (.frustum r1 r2 height)
  | circle (radius : Float) : IsPrimitive (.circle radius)
  | rectangle (size : Vec2 Float) : IsPrimitive (.rectangle size)
  | text (font : Path) (content : String) (height width : Float) :
    IsPrimitive (.text font content height width)

/-- The ways in which two geometries are joined. -/
inductive Geometry.IsJoin : (Geometry Float → Geometry Float → Geometry Float) → Prop where
  | union (k : Float) : IsJoin (union · · k)
  | intersection (k : Float) : IsJoin (intersection · · k)
  | difference (k : Float) : IsJoin (difference · · k)
  | blend (k : Float) : IsJoin (blend · · k)

/-- The ways in which geometry is changed by an operator that is called at a site. -/
inductive Geometry.IsChange (site : CallSite) :
    (Geometry Float → Except RuntimeError (Geometry Float)) → Prop where
  | keep : IsChange site .ok
  | translate (offset : Vec3 Float) : IsChange site fun g => .ok (g.translate offset)
  | turn (angles : Vec3 Float) : IsChange site fun g => .ok (Builtin.turn angles g)
  | scale (factor : Vec3 Float) : IsChange site fun g => .ok (g.scale factor)
  | mirror (normal : Vec3 Float) : IsChange site fun g => .ok (g.mirror normal)
  | extrude (height : Float) (center : Bool) : IsChange site fun g =>
    match g.dimension with
    | .solid => .error (site.invalid "children must be 2-D")
    | .flat =>
      .ok (if center then g.extrude height else (g.extrude height).translate ⟨0, 0, height / 2.0⟩)
  | shell (thickness : Float) : IsChange site fun g => .ok (g.shell thickness)

/-- Plans without children: a body, which may have been moved. -/
inductive Plan.IsBody : Plan → Prop where
  | here {g : Geometry Float} (hg : g.IsPrimitive) : IsBody (.shape g)
  | moved {g : Geometry Float} (hg : g.IsPrimitive) (offset : Vec3 Float) :
    IsBody (.shape (g.translate offset))

/-- Plans that join their children. -/
inductive Plan.IsJoining (site : CallSite) : Plan → Prop where
  | fold {join : Geometry Float → Geometry Float → Geometry Float} (hjoin : IsJoin join)
    {change : Geometry Float → Except RuntimeError (Geometry Float)}
    (hchange : IsChange site change) :
    IsJoining site (.fold join change)

namespace Builtin

variable {site : CallSite} {args : Arguments}

/-! ## Arguments -/

/-- Checking keywords only refuses. -/
lemma meets_known {names : List String} : Meets site (fun _ => True) (known site args names) :=
  trivial

/-- Reading a number only refuses. -/
lemma meets_number? {name : String} {index : Option Nat} :
    Meets site (fun _ => True) (number? site args name index) := by
  unfold number?
  dsimp only
  repeat' split
  all_goals first
    | exact .pure trivial
    | exact .refuse (.invalid _)

/-- So does the check of a sign. -/
lemma meets_sign (r : Option Float) :
    Meets site (fun _ => True) (match r with
    | some x =>
      if x < 0 then throw (site.invalid ("negative radius " ++ Decimal.display x)) else pure r
    | none => pure r : Check (Option Float)) := by
  split
  · split
    · exact .refuse (.invalid _)
    · exact .pure trivial
  · exact .pure trivial

/-- Reading a radius only refuses. -/
lemma meets_radius? {name diameter : String} {index : Option Nat} :
    Meets site (fun _ => True) (radius? site args name diameter index) := by
  refine meets_number?.bind fun r _ => ?_
  cases r with
  | some r => exact meets_sign (some r)
  | none => exact meets_number?.bind fun d _ => meets_sign (d.map (· / 2.0))

/-- Reading a vector only refuses. -/
lemma meets_vector? {name : String} {index : Nat} {fill : Float} :
    Meets site (fun _ => True) (vector? site args name index fill) := by
  unfold vector?
  repeat' split
  all_goals first
    | exact .pure trivial
    | exact .refuse (.invalid _)

lemma meets_sides {fill : Float} : Meets site (fun _ => True) (sides site args fill) :=
  meets_vector?.bind fun _ _ => .guarded (.invalid _) (.pure trivial)

/-- Reading angles only refuses. -/
lemma meets_rotationAngles : Meets site (fun _ => True) (rotationAngles site args) := by
  refine meets_vector?.bind fun axis _ => ?_
  split
  · exact .pure trivial
  · exact .pure trivial
  · split
    · exact .pure trivial
    · split
      · exact .refuse (.invalid _)
      · exact .pure trivial
  · exact meets_vector?.bind fun _ _ => .pure trivial

/-! ## Operators -/

/-- A placed body is a body. -/
lemma isBody_placed {g : Geometry Float} (hg : g.IsPrimitive) (center : Bool)
    (offset : Vec3 Float) : (placed g center offset).IsBody := by
  cases center with
  | true => exact .here hg
  | false => exact .moved hg offset

/-- A change of the union of the children is one of joined children. -/
lemma isJoining_change {host : Host} {f : Geometry Float → Except RuntimeError (Geometry Float)}
    (hf : IsChange site f) : (change host f).IsJoining site :=
  .fold (.union _) hf

variable {host : Host}

/-- A sphere is made of its arguments alone. -/
lemma meets_sphere : Meets site IsBody (sphere host site args) :=
  meets_known.bind fun _ _ => meets_radius?.bind fun _ _ => .pure (.here (.sphere _))

lemma meets_cube : Meets site IsBody (cube host site args) :=
  meets_known.bind fun _ _ => meets_sides.bind fun _ _ => .pure (isBody_placed (.box _) _ _)

/-- So is a cylinder, with one radius or two. -/
lemma meets_cylinder : Meets site IsBody (cylinder host site args) := by
  refine meets_known.bind fun _ _ => meets_number?.bind fun _ _ => ?_
  apply Meets.guarded (.invalid _)
  refine meets_radius?.bind fun _ _ => ?_
  refine meets_radius?.bind fun _ _ => ?_
  exact meets_radius?.bind fun _ _ => .pure (isBody_placed (.frustum _ _ _) _ _)

lemma meets_circle : Meets site IsBody (circle host site args) :=
  meets_known.bind fun _ _ => meets_radius?.bind fun _ _ => .pure (.here (.circle _))

lemma meets_square : Meets site IsBody (square host site args) :=
  meets_known.bind fun _ _ => meets_sides.bind fun _ _ => .pure (isBody_placed (.rectangle _) _ _)

/-- A text needs a font. -/
lemma meets_font {content : String} {size : Float} {family : String} :
    Meets site IsBody (match host.fonts.resolve family with
      | .error detail => throw ⟨.font site.name detail, some site.pos⟩
      | .ok font =>
      pure (.shape
      (.text font content size (size * glyphAdvance * Float.ofNat content.length)))) := by
  split
  · exact .refuse (.font _)
  · exact .pure (.here (.text _ _ _ _))

/-- A text is made of its arguments and the fonts. -/
lemma meets_text : Meets site IsBody (text host site args) := by
  refine meets_known.bind fun _ _ => meets_number?.bind fun _ _ => ?_
  dsimp only
  split
  · exact meets_font
  · exact meets_font
  · exact meets_font
  · exact (Meets.refuse (.invalid _) : Meets site (fun _ => False) _).bind fun _ h => h.elim

/-- Combinations join their children. -/
lemma meets_combination {join : Geometry Float → Geometry Float → Float → Geometry Float}
    (hjoin : ∀ k, IsJoin (join · · k)) (width : Smoothing → Float) :
    Meets site (IsJoining site) (combination join width host site args) :=
  meets_known.bind fun _ _ => meets_number?.bind fun _ _ => .pure (.fold (hjoin _) .keep)

/-- Moved children are joined and then changed. -/
lemma meets_translate : Meets site (IsJoining site) (translate host site args) :=
  meets_known.bind fun _ _ => meets_vector?.bind fun _ _ => .pure (isJoining_change (.translate _))

lemma meets_rotate : Meets site (IsJoining site) (rotate host site args) :=
  meets_known.bind fun _ _ => meets_rotationAngles.bind fun _ _ =>
    .pure (isJoining_change (.turn _))

/-- A scaling refuses factors of zero. -/
lemma meets_scale : Meets site (IsJoining site) (scale host site args) :=
  meets_known.bind fun _ _ => meets_vector?.bind fun _ _ =>
    .guarded (.invalid _) (.pure (isJoining_change (.scale _)))

/-- A reflection refuses a normal without direction. -/
lemma meets_mirror : Meets site (IsJoining site) (mirror host site args) := by
  refine meets_known.bind fun _ _ => meets_vector?.bind fun _ _ => ?_
  dsimp only
  split
  · exact .refuse (.invalid _)
  · exact .pure (isJoining_change (.mirror _))

/-- Only flat children can be extruded. -/
lemma meets_extrude : Meets site (IsJoining site) (extrude host site args) := by
  refine meets_known.bind fun _ _ => meets_number?.bind fun _ _ => ?_
  apply Meets.guarded (.invalid _)
  exact .pure (isJoining_change (.extrude _ _))

lemma meets_shell : Meets site (IsJoining site) (shell host site args) :=
  meets_known.bind fun _ _ => meets_number?.bind fun _ _ =>
    .guarded (.invalid _) (.pure (isJoining_change (.shell _)))

/-- Echoed children are handed on. -/
lemma meets_echoChildren : Meets site (· = .relay) (echoChildren host site args) := rfl

/-- The operators that join their children. -/
def joining : List String :=
  ["union", "intersection", "difference", "blend", "translate", "rotate", "scale", "mirror",
    "linear_extrude", "extrude", "shell"]

/-- The plans that an operator may result in. -/
def Promises (name : String) (site : CallSite) (plan : Plan) : Prop :=
  if name ∈ joining then plan.IsJoining site else plan.IsBody ∨ plan = .relay

/-- A body is what operators without children promise. -/
lemma Promises.of_isBody {name : String} (hname : name ∉ joining) {plan : Plan} (h : plan.IsBody) :
    Promises name site plan := by
  rw [Promises, if_neg hname]
  exact .inl h

/-- Joined children are what the others promise. -/
lemma Promises.of_isJoining {name : String} (hname : name ∈ joining) {plan : Plan}
    (h : plan.IsJoining site) : Promises name site plan := by
  rw [Promises, if_pos hname]
  exact h

variable (site args host) in
/-- Every operator refuses its call, or results in a plan as its name says. -/
theorem meets_of_mem : ∀ x ∈ operators, Meets site (Promises x.1 site) (x.2 host site args) := by
  have hbody {name : String} (hname : name ∉ joining) {x : Check Plan} (hx : Meets site IsBody x) :
      Meets site (Promises name site) x := hx.mono fun _ => .of_isBody hname
  have hjoin {name : String} (hname : name ∈ joining) {x : Check Plan}
    (hx : Meets site (IsJoining site) x) :
      Meets site (Promises name site) x := hx.mono fun _ => .of_isJoining hname
  simp only [operators, List.forall_mem_cons]
  refine ⟨hbody ?_ meets_sphere, hbody ?_ meets_cube, hbody ?_ meets_cylinder,
    hbody ?_ meets_circle, hbody ?_ meets_square, hbody ?_ meets_text,
    hjoin ?_ (meets_combination .union _), hjoin ?_ (meets_combination .intersection _),
    hjoin ?_ (meets_combination .difference _), hjoin ?_ (meets_combination .blend _),
    hjoin ?_ meets_translate, hjoin ?_ meets_rotate, hjoin ?_ meets_scale, hjoin ?_ meets_mirror,
    hjoin ?_ meets_extrude, hjoin ?_ meets_extrude, hjoin ?_ meets_shell, meets_echoChildren.mono
      fun _ => ?_, List.forall_mem_nil _⟩
  case refine_18 => exact fun h => .inr h
  all_goals simp [joining]

end Builtin

end SolidScript
