import SolidScript.Proofs.Geometry.Distances
import SolidScript.Proofs.Machine.Dimensions

/-!
# Flat geometry and the third coordinate

Flat geometry is the same at every height: translations and scalings of flat geometry leave the
third coordinate to itself, and turns are about the third axis. Mirrors are not treated so. One
whose normal is neither level nor upright mixes height into the plane, and what it leaves is still
tagged as flat.

Numbers in a program need not be real, so points need not be either. What is kept along a tree is
whether the third coordinate is real; more than that no flat shape can tell.
-/

namespace SolidScript

open Vec3

open Exact (isFinite_div_congr)

/-! ## Points above each other -/

/-- Points that differ in the third coordinate at most, which is real for both or for none. -/
structure Vec3.Above (p q : Vec3 Exact) : Prop where
  x : p.x = q.x
  y : p.y = q.y
  z : p.z.isFinite = q.z.isFinite

namespace Vec3.Above

variable {p q : Vec3 Exact}

lemma xy (h : p.Above q) : p.xy = q.xy := by
  unfold Vec3.xy
  rw [h.x, h.y]

lemma sub (h : p.Above q) (offset : Vec3 Exact) : (p - offset).Above (q - offset) where
  x := congrArg (· - offset.x) h.x
  y := congrArg (· - offset.y) h.y
  z := by
    show (p.z - offset.z).isFinite = (q.z - offset.z).isFinite
    simp [h.z]

lemma divide (h : p.Above q) (factor : Vec3 Exact) : (p.divide factor).Above (q.divide factor) where
  x := congrArg (· / factor.x) h.x
  y := congrArg (· / factor.y) h.y
  z := isFinite_div_congr h.z factor.z

lemma isFinite_dot (h : p.Above q) (n : Vec3 Exact) : (p.dot n).isFinite = (q.dot n).isFinite := by
  unfold dot
  simp [h.x, h.y, h.z]

/-- Turns about the third axis keep to the plane. -/
lemma unapply (h : p.Above q) {r : Rotation Exact} (h₁ : r.col1.z.IsVoid) (h₂ : r.col2.z.IsVoid) :
    (r.unapply p).Above (r.unapply q) := by
  have hdot {c : Vec3 Exact} (hc : c.z.IsVoid) : c.dot p = c.dot q := by
    unfold dot
    rw [h.x, h.y, hc.mul_congr h.z]
  refine ⟨hdot h₁, hdot h₂, ?_⟩
  show (r.col3.dot p).isFinite = (r.col3.dot q).isFinite
  unfold dot
  simp [h.x, h.y, h.z]

/-- Mirrors keep to the plane if their normals are level or upright. -/
lemma reflect (h : p.Above q) {n : Vec3 Exact} (hn : n.z.IsVoid ∨ n.x.IsVoid ∧ n.y.IsVoid) :
    (p.reflect n).Above (q.reflect n) := by
  have hshift : (2.0 * p.dot n).isFinite = (2.0 * q.dot n).isFinite := by
    simp [h.isFinite_dot n]
  have hxy : n.x * (2.0 * p.dot n) = n.x * (2.0 * q.dot n) ∧ n.y * (2.0 * p.dot n) =
      n.y * (2.0 * q.dot n) := by
    rcases hn with hz | ⟨hx, hy⟩
    · -- with a level normal the height does not enter the shift at all
      have hdot : p.dot n = q.dot n := by
        unfold dot
        rw [h.x, h.y, hz.congr_mul h.z]
      rw [hdot]
      exact ⟨rfl, rfl⟩
    · -- with an upright one it enters, but only the third coordinate is shifted
      exact ⟨hx.mul_congr hshift, hy.mul_congr hshift⟩
  refine ⟨congrArg₂ (· - ·) h.x hxy.1, congrArg₂ (· - ·) h.y hxy.2, ?_⟩
  show (p.z - n.z * (2.0 * p.dot n)).isFinite = (q.z - n.z * (2.0 * q.dot n)).isFinite
  simp only [Exact.isFinite_sub, Exact.isFinite_mul n.z, hshift, h.z]

end Vec3.Above

/-! ## Flat geometry -/

/-- The normals of all mirrors in a shape. -/
def Shape.normals {S : Type} : Shape S → List (Vec3 S)
  | sphere _ | box _ | frustum _ _ _ | circle _ | rectangle _ | text _ _ _ => []
  | union a b _ | difference a b _ | intersection a b _ | blend a b _ => a.normals ++ b.normals
  | translate inner _ | rotate inner _ | scale inner _ | extrude inner _ | shell inner _ =>
    inner.normals
  | mirror inner normal => normal :: inner.normals

/-- A shape with the numbers that its floating-point numbers stand for. -/
noncomputable def Shape.unrounded (s : Shape Float) : Shape Exact := s.map Exact.ofFloat

/-- A normal that is level or upright. -/
def Vec3.KeepsHeight (n : Vec3 Float) : Prop :=
  (Exact.ofFloat n.z).IsVoid ∨ (Exact.ofFloat n.x).IsVoid ∧ (Exact.ofFloat n.y).IsVoid

/-- Flat geometry is the same at every height, if all mirrors are level or upright. -/
theorem Geometry.Built.distance_eq_of_above {g : Geometry Float} (hg : g.Built)
    (hflat : g.dimension = .flat) (hnormals : ∀ n ∈ g.shape.normals, n.KeepsHeight)
    {p q : Vec3 Exact} (h : p.Above q) :
    g.shape.unrounded.distance p = g.shape.unrounded.distance q := by
  -- what is moved asks its part at points that are above each other again
  induction hg generalizing p q with
  | primitive hg =>
    cases hg with
    | sphere | box | frustum => cases hflat
    | circle radius => exact congrArg (fun v : Vec2 Exact => v.norm - Exact.ofFloat radius) h.xy
    | rectangle size => exact congrArg (rectangleDistance · _) h.xy
    | text font content height width =>
      exact congrArg (fun v : Vec2 Exact => List.foldl (fun d (g : Glyph Exact) =>
        Scalar.min d (rectangleDistance (v - g.center) g.half)) Scalar.infinity _) h.xy
  | @join f hf a b _ _ hdimension iha ihb =>
    have ha : a.dimension = .flat := (hf.dimension_eq a b).symm.trans hflat
    have hparts : ∀ n ∈ a.shape.normals ++ b.shape.normals, n.KeepsHeight := by
      cases hf <;> exact hnormals
    obtain ⟨hna, hnb⟩ := List.forall_mem_append.mp hparts
    have hda := iha ha hna h
    have hdb := ihb (hdimension.trans ha) hnb h
    cases hf with
    | union k => exact congrArg₂ (smoothUnion · · _) hda hdb
    | intersection k => exact congrArg₂ (smoothIntersection · · _) hda hdb
    | difference k => exact congrArg₂ (smoothDifference · · _) hda hdb
    | blend k => exact congrArg₂ (Scalar.lerp · · _) hda hdb
  | translate _ offset ih => exact ih hflat hnormals (h.sub _)
  | @rotate g _ rotation hlevel ih =>
    obtain ⟨angle, rfl⟩ := hlevel hflat
    obtain ⟨h₁, h₂⟩ := Rotation.isNull_ofAxisAngle_third angle
    exact ih hflat hnormals (h.unapply (r := Rotation.map Exact.ofFloat _) h₁.isVoid h₂.isVoid)
  | scale _ factor ih => exact congrArg (· * _) (ih hflat hnormals (h.divide _))
  | mirror _ normal ih =>
    obtain ⟨hnormal, hinner⟩ := List.forall_mem_cons.mp hnormals
    exact ih hflat hinner (h.reflect (n := normal.map Exact.ofFloat) hnormal)
  | extrude => cases hflat
  | shell _ thickness ih => exact congrArg (fun d : Exact => Scalar.abs d - _) (ih hflat hnormals h)

namespace Evaluation

/-- Flat geometry that an evaluation yields is the same at every height, whatever the program and
the settings are, if no mirror in it has a normal that is neither level nor upright. -/
theorem flat_is_planar (host : Host) (program : Program) {k : Nat} {g : Geometry Float}
    (hg : ((start ⟨.standard, host⟩ program).answer k).1 = .item g) (hflat : g.dimension = .flat)
    (hnormals : ∀ n ∈ g.shape.normals, n.KeepsHeight) (x y z : ℝ) :
    g.shape.unrounded.distance ⟨x, y, z⟩ = g.shape.unrounded.distance ⟨x, y, (0 : ℝ)⟩ := by
  have hbuilt : g.Built := holds_of_item (supplies_standard host) hg
  exact hbuilt.distance_eq_of_above hflat hnormals ⟨rfl, rfl, rfl⟩

/-- A disc and a square, united and mirrored. -/
def mirroredProgram : Program :=
  [.invoke .start "mirror" [] [.invoke .start "circle" [] [], .invoke .start "square" [] []]]

/-- The disc and the square. -/
def mirroredPair : Geometry Float :=
  let square := (Geometry.rectangle ⟨1.0, 1.0⟩).translate ⟨1.0 / 2.0, 1.0 / 2.0, 0⟩
  ((Geometry.circle 1.0).union square plainEnvironment.host.settings.smoothing.union).mirror
    ((⟨1, 0, 0⟩ : Vec3 Float).shrink (⟨1, 0, 0⟩ : Vec3 Float).norm)

-- the length of a normal is compared with the least one, which takes more unfolding than usual
set_option maxRecDepth 1000 in
lemma answer_mirrored : ((start plainEnvironment mirroredProgram).answer 0).1 =
    .item mirroredPair := rfl

/-- The mirror of the disc and the square is level. -/
theorem flat_is_planar_mirrored :
    ((start plainEnvironment mirroredProgram).answer 0).1 = .item mirroredPair ∧
      mirroredPair.dimension = .flat ∧
      (∀ n ∈ mirroredPair.shape.normals, n.KeepsHeight) ∧
      mirroredPair.shape.unrounded.distance ⟨(1 : ℝ), (2 : ℝ), (3 : ℝ)⟩ =
        mirroredPair.shape.unrounded.distance ⟨(1 : ℝ), (2 : ℝ), (0 : ℝ)⟩ := by
  have hnormals : ∀ n ∈ mirroredPair.shape.normals, n.KeepsHeight :=
    List.forall_mem_singleton.mpr (.inl (IsNull.zero.div _).isVoid)
  exact ⟨answer_mirrored, rfl, hnormals,
    flat_is_planar plainEnvironment.host mirroredProgram answer_mirrored rfl hnormals 1 2 3⟩

/-! ## A mirror that is neither level nor upright -/

/-- A disc that is mirrored in a plane which stands at an angle. -/
def tiltedProgram : Program :=
  [.invoke .start "mirror"
    [⟨none, .vector .start [.number .start 1, .number .start 1, .number .start 1]⟩]
    [.invoke .start "circle" [] []]]

def tiltedNormal : Vec3 Float := (⟨1, 1, 1⟩ : Vec3 Float).shrink (⟨1, 1, 1⟩ : Vec3 Float).norm

def tiltedDisc : Geometry Float := (Geometry.circle 1.0).mirror tiltedNormal

set_option maxRecDepth 1000 in
lemma answer_tilted : ((start plainEnvironment tiltedProgram).answer 0).1 = .item tiltedDisc := rfl

/-- Whether a floating-point number stands for a real number other than zero. -/
def isNonzero (x : Float) : Bool :=
  match x.toModel.unpack with
  | .finite _ _ _ _ => true
  | _ => false

lemma exists_of_isNonzero {x : Float} (h : isNonzero x = true) :
    ∃ r : ℝ, r ≠ 0 ∧ Exact.ofFloat x = r := by
  unfold isNonzero at h
  unfold Exact.ofFloat
  cases hx : x.toModel.unpack with
  | finite sign mantissa exponent hpos =>
    refine ⟨_, mul_ne_zero ?_ (zpow_ne_zero _ two_ne_zero), rfl⟩
    cases sign <;> simp [Float.Model.UnpackedFloat.Sign.apply, hpos.ne']
  | _ =>
    rw [hx] at h
    cases h

/-- The distance to the disc above its middle, where the three coordinates of the normal are the
same. -/
lemma distance_tilted (c r z : ℝ) :
    (Shape.mirror (.circle r) ⟨c, c, c⟩).exact.distance
      (exact ⟨0, 0, z⟩) = (√2 * (2 * c ^ 2 * |z|) - r : ℝ) := by
  have hback : reflect (⟨0, 0, z⟩ : Vec3 ℝ) ⟨c, c, c⟩ =
      ⟨-(2 * c ^ 2 * z), -(2 * c ^ 2 * z), z - 2 * c ^ 2 * z⟩ := by
    rw [reflect_eq]
    ring_nf
  show (exact (reflect ⟨0, 0, z⟩ ⟨c, c, c⟩)).xy.norm - (r : Exact) = _
  rw [hback]
  show (⟨(-(2 * c ^ 2 * z) : ℝ), (-(2 * c ^ 2 * z) : ℝ)⟩ : Vec2 Exact).norm - (r : Exact) = _
  have hsq : (-(2 * c ^ 2 * z)) ^ 2 + (-(2 * c ^ 2 * z)) ^ 2 = 2 * (2 * c ^ 2 * z) ^ 2 := by ring
  have habs : |2 * c ^ 2 * z| = 2 * c ^ 2 * |z| := by
    rw [abs_mul, abs_of_nonneg (by positivity)]
  rw [Vec2.norm_coe, Exact.sub_coe, hsq, Real.sqrt_mul zero_le_two, Real.sqrt_sq_eq_abs, habs]

/-- What is tagged as flat is not the same at every height. -/
theorem tilted_not_planar :
    ((start plainEnvironment tiltedProgram).answer 0).1 = .item tiltedDisc ∧
      tiltedDisc.dimension = .flat ∧
      tiltedDisc.shape.unrounded.distance ⟨(0 : ℝ), (0 : ℝ), (3 : ℝ)⟩ ≠
        tiltedDisc.shape.unrounded.distance ⟨(0 : ℝ), (0 : ℝ), (0 : ℝ)⟩ := by
  refine ⟨answer_tilted, rfl, fun h => ?_⟩
  -- which numbers the normal and the radius are does not matter, only that they are not zero
  obtain ⟨c, hc, hnormal⟩ :=
    exists_of_isNonzero (show isNonzero tiltedNormal.x = true by decide +kernel)
  obtain ⟨r, -, hradius⟩ := exists_of_isNonzero (show isNonzero 1.0 = true by decide +kernel)
  have hshape : tiltedDisc.shape.unrounded = (Shape.mirror (.circle r) ⟨c, c, c⟩).exact := by
    show Shape.mirror (.circle (Exact.ofFloat 1.0))
      ⟨Exact.ofFloat tiltedNormal.x, Exact.ofFloat tiltedNormal.x, Exact.ofFloat tiltedNormal.x⟩ = _
    rw [hnormal, hradius]
    rfl
  have hthree := distance_tilted c r 3
  have hzero := distance_tilted c r 0
  rw [hshape] at h
  have heq := (Exact.coe_inj _ _).mp (hthree.symm.trans (h.trans hzero))
  have hpos : 0 < √2 * (2 * c ^ 2 * |3|) := by positivity
  rw [abs_zero, mul_zero, mul_zero] at heq
  linarith

end Evaluation

end SolidScript
