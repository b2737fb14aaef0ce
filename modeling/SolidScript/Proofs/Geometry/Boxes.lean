import Mathlib.Tactic.Ring
import SolidScript.Proofs.Geometry.Reading

/-!
# Boxes of shapes with real numbers

Such a box has real corners, or else it is empty: along an axis it goes from one real number to
another, or from infinity down to minus infinity. So a box with a point in it is a box of real
numbers, and what is done with boxes keeps the points that it should.
-/

namespace SolidScript

open Bounds List Vec3

/-- No coordinate is larger. -/
def Vec3.Below (p q : Vec3 ℝ) : Prop := p.x ≤ q.x ∧ p.y ≤ q.y ∧ p.z ≤ q.z

/-- Points below each other in a row. -/
lemma Vec3.Below.trans {p q r : Vec3 ℝ} (h : p.Below q) (h' : q.Below r) : p.Below r :=
  ⟨h.1.trans h'.1, h.2.1.trans h'.2.1, h.2.2.trans h'.2.2⟩

/-- The smaller coordinates of two points. -/
noncomputable def Vec3.least (p q : Vec3 ℝ) : Vec3 ℝ := ⟨min p.x q.x, min p.y q.y, min p.z q.z⟩

/-- The larger coordinates of two points. -/
noncomputable def Vec3.most (p q : Vec3 ℝ) : Vec3 ℝ := ⟨max p.x q.x, max p.y q.y, max p.z q.z⟩

section

variable (p q : Vec3 ℝ)

lemma Vec3.Below.refl : p.Below p := ⟨le_rfl, le_rfl, le_rfl⟩

/-- The least of two points is below the first. -/
lemma Vec3.least_below_left : (p.least q).Below p :=
  ⟨min_le_left _ _, min_le_left _ _, min_le_left _ _⟩

lemma Vec3.least_below_right : (p.least q).Below q :=
  ⟨min_le_right _ _, min_le_right _ _, min_le_right _ _⟩

/-- The most of two points is above the first. -/
lemma Vec3.below_most_left : p.Below (p.most q) :=
  ⟨le_max_left _ _, le_max_left _ _, le_max_left _ _⟩

lemma Vec3.below_most_right : q.Below (p.most q) :=
  ⟨le_max_right _ _, le_max_right _ _, le_max_right _ _⟩

end

namespace Exact

/-- From one real number to another, or nothing at all. -/
def IsSpan (l u : Exact) : Prop := (∃ a b : ℝ, l = a ∧ u = b) ∨ l = posInf ∧ u = negInf

variable {l u l' u' : Exact}

/-- Real ends make a span. -/
lemma isSpan_coe (a b : ℝ) : IsSpan a b := .inl ⟨a, b, rfl, rfl⟩

/-- Positive infinity does not lower an end. -/
@[simp] lemma lower_posInf (a : ℝ) : Scalar.lower (a : Exact) posInf = a := if_pos trivial

@[simp] lemma posInf_lower (a : ℝ) : Scalar.lower posInf (a : Exact) = a := if_neg id

/-- Negative infinity does not raise an end. -/
@[simp] lemma upper_negInf (a : ℝ) : Scalar.upper (a : Exact) negInf = a := if_pos trivial

@[simp] lemma negInf_upper (a : ℝ) : Scalar.upper negInf (a : Exact) = a := if_neg id

@[simp] lemma upper_posInf (a : ℝ) : Scalar.upper (a : Exact) posInf = posInf := if_neg id

@[simp] lemma posInf_upper (a : ℝ) : Scalar.upper posInf (a : Exact) = posInf := if_pos trivial

@[simp] lemma lower_negInf (a : ℝ) : Scalar.lower (a : Exact) negInf = negInf := if_neg id

@[simp] lemma negInf_lower (a : ℝ) : Scalar.lower negInf (a : Exact) = negInf := if_pos trivial

@[simp] lemma lower_self (a : Exact) : Scalar.lower a a = a := by
  unfold Scalar.lower
  split <;> rfl

@[simp] lemma upper_self (a : Exact) : Scalar.upper a a = a := by
  unfold Scalar.upper
  split <;> rfl

/-- The ends of two spans together are a span. -/
lemma IsSpan.union (h : IsSpan l u) (h' : IsSpan l' u') :
    IsSpan (Scalar.lower l l') (Scalar.upper u u') := by
  rcases h with ⟨a, b, rfl, rfl⟩ | ⟨rfl, rfl⟩ <;> rcases h' with ⟨a', b', rfl, rfl⟩ | ⟨rfl, rfl⟩
  all_goals simp [IsSpan]

/-- What two spans have in common is a span. -/
lemma IsSpan.inter (h : IsSpan l u) (h' : IsSpan l' u') :
    IsSpan (Scalar.upper l l') (Scalar.lower u u') := by
  rcases h with ⟨a, b, rfl, rfl⟩ | ⟨rfl, rfl⟩ <;> rcases h' with ⟨a', b', rfl, rfl⟩ | ⟨rfl, rfl⟩
  all_goals simp [IsSpan]

/-- The union of spans does not depend on their order. -/
lemma IsSpan.union_comm (h : IsSpan l u) (h' : IsSpan l' u') :
    Scalar.lower l l' = Scalar.lower l' l ∧ Scalar.upper u u' = Scalar.upper u' u := by
  rcases h with ⟨a, b, rfl, rfl⟩ | ⟨rfl, rfl⟩ <;> rcases h' with ⟨a', b', rfl, rfl⟩ | ⟨rfl, rfl⟩
  all_goals simp [min_comm, max_comm]

/-- What a span holds, a larger one does. -/
lemma IsSpan.mem_union {x : ℝ} (h : IsSpan l u) (h' : IsSpan l' u') (hx : l ≤ x ∧ (x : Exact) ≤ u) :
    Scalar.lower l l' ≤ x ∧ (x : Exact) ≤ Scalar.upper u u' := by
  rcases h with ⟨a, b, rfl, rfl⟩ | ⟨rfl, rfl⟩
  · rcases h' with ⟨a', b', rfl, rfl⟩ | ⟨rfl, rfl⟩
    · simp only [lower_coe, upper_coe, coe_le_coe] at hx ⊢
      exact ⟨(min_le_left a a').trans hx.1, hx.2.trans (le_max_left b b')⟩
    · simpa using hx
  · exact hx.1.elim

/-- What two spans hold, so does their common part. -/
lemma mem_inter {x : ℝ} (hx : l ≤ x ∧ (x : Exact) ≤ u) (hx' : l' ≤ x ∧ (x : Exact) ≤ u') :
    Scalar.upper l l' ≤ x ∧ (x : Exact) ≤ Scalar.lower u u' := by
  unfold Scalar.upper Scalar.lower
  constructor <;> split
  · exact hx.1
  · exact hx'.1
  · exact hx.2
  · exact hx'.2

end Exact

open Exact (IsSpan isSpan_coe)

namespace Bounds

/-- The box with real corners. -/
def ofCorners (l u : Vec3 ℝ) : Bounds Exact := ⟨l.exact, u.exact⟩

/-- Along each axis the box is a span. -/
structure Proper (b : Bounds Exact) : Prop where
  x : IsSpan b.min.x b.max.x
  y : IsSpan b.min.y b.max.y
  z : IsSpan b.min.z b.max.z

variable {a b : Bounds Exact} {l u p : Vec3 ℝ}

/-- The points of a box lie between its corners. -/
lemma mem_ofCorners : p.exact ∈ ofCorners l u ↔ l.Below p ∧ p.Below u :=
  ⟨fun ⟨hx, hy, hz⟩ => ⟨⟨hx.1, hy.1, hz.1⟩, hx.2, hy.2, hz.2⟩,
    fun ⟨⟨hx, hy, hz⟩, hx', hy', hz'⟩ => ⟨⟨hx, hx'⟩, ⟨hy, hy'⟩, hz, hz'⟩⟩

/-- A box with real corners is proper. -/
lemma proper_ofCorners (l u : Vec3 ℝ) : (ofCorners l u).Proper :=
  ⟨isSpan_coe _ _, isSpan_coe _ _, isSpan_coe _ _⟩

/-- The empty box is proper. -/
lemma proper_empty : (empty : Bounds Exact).Proper :=
  ⟨.inr ⟨rfl, rfl⟩, .inr ⟨rfl, rfl⟩, .inr ⟨rfl, rfl⟩⟩

/-- A box with a point in it has real corners. -/
lemma Proper.exists_corners (h : b.Proper) (hp : p.exact ∈ b) :
    ∃ l u, b = ofCorners l u ∧ l.Below p ∧ p.Below u := by
  obtain ⟨⟨lx, ly, lz⟩, ux, uy, uz⟩ := b
  rcases h.x with ⟨a₁, b₁, rfl, rfl⟩ | ⟨rfl, rfl⟩
  · rcases h.y with ⟨a₂, b₂, rfl, rfl⟩ | ⟨rfl, rfl⟩
    · rcases h.z with ⟨a₃, b₃, rfl, rfl⟩ | ⟨rfl, rfl⟩
      · exact ⟨⟨a₁, a₂, a₃⟩, ⟨b₁, b₂, b₃⟩, rfl, mem_ofCorners.mp hp⟩
      · exact hp.2.2.1.elim
    · exact hp.2.1.1.elim
  · exact hp.1.1.elim

/-- A box has points if its corners are in order. -/
lemma isEmpty_ofCorners : (ofCorners l u).isEmpty = false ↔ l.Below u := by
  show (decide (u.x < l.x) || decide (u.y < l.y) || decide (u.z < l.z)) = false ↔ _
  simp only [Bool.or_eq_false_iff, decide_eq_false_iff_not, not_lt, and_assoc]
  rfl

/-- A box that is not empty has real corners. -/
lemma Proper.eq_ofCorners (h : b.Proper) (hb : b.isEmpty = false) :
    ∃ l u, b = ofCorners l u ∧ l.Below u := by
  obtain ⟨⟨lx, ly, lz⟩, ux, uy, uz⟩ := b
  have hne := hb
  simp only [isEmpty, Bool.or_eq_false_iff, decide_eq_false_iff_not] at hne
  rcases h.x with ⟨a₁, b₁, rfl, rfl⟩ | ⟨rfl, rfl⟩
  · rcases h.y with ⟨a₂, b₂, rfl, rfl⟩ | ⟨rfl, rfl⟩
    · rcases h.z with ⟨a₃, b₃, rfl, rfl⟩ | ⟨rfl, rfl⟩
      · exact ⟨⟨a₁, a₂, a₃⟩, ⟨b₁, b₂, b₃⟩, rfl, isEmpty_ofCorners.mp hb⟩
      · exact (hne.2 trivial).elim
    · exact (hne.1.2 trivial).elim
  · exact (hne.1.1 trivial).elim

/-! ## Unions and intersections -/

/-- The union of proper boxes is proper. -/
lemma Proper.union (ha : a.Proper) (hb : b.Proper) : (a.union b).Proper :=
  ⟨ha.x.union hb.x, ha.y.union hb.y, ha.z.union hb.z⟩

/-- What proper boxes have in common is proper. -/
lemma Proper.inter (ha : a.Proper) (hb : b.Proper) : (a.inter b).Proper :=
  ⟨ha.x.inter hb.x, ha.y.inter hb.y, ha.z.inter hb.z⟩

/-- A union has the points of its first box. -/
lemma mem_union_left (ha : a.Proper) (hb : b.Proper) (hp : p.exact ∈ a) : p.exact ∈ a.union b :=
  ⟨ha.x.mem_union hb.x hp.1, ha.y.mem_union hb.y hp.2.1, ha.z.mem_union hb.z hp.2.2⟩

/-- A union has the points of its second box. -/
lemma mem_union_right (ha : a.Proper) (hb : b.Proper) (hp : p.exact ∈ b) : p.exact ∈ a.union b := by
  have hcomm : a.union b = b.union a := by
    have hx := ha.x.union_comm hb.x
    have hy := ha.y.union_comm hb.y
    have hz := ha.z.union_comm hb.z
    simp only [union, lower, upper, hx, hy, hz]
  rw [hcomm]
  exact mem_union_left hb ha hp

/-- A common point lies in the intersection. -/
lemma mem_inter (ha : p.exact ∈ a) (hb : p.exact ∈ b) : p.exact ∈ a.inter b :=
  ⟨Exact.mem_inter ha.1 hb.1, Exact.mem_inter ha.2.1 hb.2.1, Exact.mem_inter ha.2.2 hb.2.2⟩

/-! ## Margins -/

/-- An empty box has no margin. -/
lemma pad_of_isEmpty {m : Exact} (hb : b.isEmpty = true) : b.pad m = b := if_pos hb

/-- A margin moves the corners apart. -/
lemma pad_ofCorners (h : l.Below u) (m : ℝ) :
    (ofCorners l u).pad m = ofCorners ⟨l.x - m, l.y - m, l.z - m⟩ ⟨u.x + m, u.y + m, u.z + m⟩ := by
  have hne : (ofCorners l u).isEmpty ≠ true := Bool.eq_false_iff.mp (isEmpty_ofCorners.mpr h)
  refine (if_neg hne).trans ?_
  show mk ⟨(l.x : Exact) - m, (l.y : Exact) - m, (l.z : Exact) - m⟩ _ = _
  simp only [Exact.sub_coe]
  rfl

/-- A margin keeps a box proper. -/
lemma Proper.pad (hb : b.Proper) (m : ℝ) : (b.pad m).Proper := by
  cases hempty : b.isEmpty with
  | true =>
    rw [pad_of_isEmpty hempty]
    exact hb
  | false =>
    obtain ⟨l, u, rfl, hlu⟩ := hb.eq_ofCorners hempty
    rw [pad_ofCorners hlu]
    exact proper_ofCorners _ _

/-- A point that is at most a margin away from a box along each axis. -/
lemma mem_pad_of_near (hb : b.Proper) {q : Vec3 ℝ} (hq : q.exact ∈ b) {m : ℝ} (hx : |p.x - q.x| ≤ m)
    (hy : |p.y - q.y| ≤ m) (hz : |p.z - q.z| ≤ m) : p.exact ∈ b.pad m := by
  obtain ⟨l, u, rfl, hl, hu⟩ := hb.exists_corners hq
  rw [pad_ofCorners (hl.trans hu), mem_ofCorners]
  obtain ⟨hlx, hly, hlz⟩ := hl
  obtain ⟨hux, huy, huz⟩ := hu
  rw [abs_le] at hx hy hz
  refine ⟨⟨?_, ?_, ?_⟩, ?_, ?_, ?_⟩ <;> dsimp only <;> linarith

/-- A margin that is not negative keeps all points. -/
lemma mem_pad (hb : b.Proper) (hp : p.exact ∈ b) {m : ℝ} (hm : 0 ≤ m) : p.exact ∈ b.pad m := by
  refine mem_pad_of_near hb hp ?_ ?_ ?_ <;> rwa [sub_self, abs_zero]

/-! ## Images of corners -/

/-- A box grows to a point. -/
lemma insert_ofCorners (l u p : Vec3 ℝ) :
    (ofCorners l u).insert p.exact = ofCorners (l.least p) (u.most p) := by
  show mk ⟨Scalar.min (l.x : Exact) p.x, Scalar.min (l.y : Exact) p.y, Scalar.min (l.z : Exact) p.z⟩
    ⟨Scalar.max (u.x : Exact) p.x, Scalar.max (u.y : Exact) p.y, Scalar.max (u.z : Exact) p.z⟩ = _
  simp only [Exact.min_coe, Exact.max_coe]
  rfl

/-- The first point is the whole box. -/
lemma insert_empty (p : Vec3 ℝ) : (empty : Bounds Exact).insert p.exact = ofCorners p p := by
  show mk ⟨Scalar.min .posInf (p.x : Exact), Scalar.min .posInf (p.y : Exact),
    Scalar.min .posInf (p.z : Exact)⟩
    ⟨Scalar.max .negInf (p.x : Exact), Scalar.max .negInf (p.y : Exact),
      Scalar.max .negInf (p.z : Exact)⟩ = _
  simp only [Exact.posInf_min, Exact.negInf_max]
  rfl

/-- A box that grows to hold some points. -/
lemma foldl_insert (ps : List (Vec3 ℝ)) (l u : Vec3 ℝ) :
    ∃ l' u', (ps.map exact).foldl insert (ofCorners l u) = ofCorners l' u' ∧
      (l'.Below l ∧ u.Below u') ∧ ∀ p ∈ ps, l'.Below p ∧ p.Below u' := by
  induction ps generalizing l u with
  | nil => exact ⟨l, u, rfl, ⟨.refl l, .refl u⟩, fun p hp => absurd hp not_mem_nil⟩
  | cons q ps ih =>
    obtain ⟨l', u', heq, ⟨hl, hu⟩, hps⟩ := ih (l.least q) (u.most q)
    refine ⟨l', u', ?_, ⟨hl.trans (l.least_below_left q), .trans (u.below_most_left q) hu⟩, ?_⟩
    · rw [map_cons, foldl_cons, insert_ofCorners, heq]
    · exact forall_mem_cons.mpr
        ⟨⟨hl.trans (l.least_below_right q), .trans (u.below_most_right q) hu⟩, hps⟩

/-- The smallest box around some points has real corners. -/
lemma ofPoints_cons (p : Vec3 ℝ) (ps : List (Vec3 ℝ)) :
    ∃ l u, ofPoints ((p :: ps).map exact) = ofCorners l u ∧ ∀ q ∈ p :: ps, l.Below q ∧
      q.Below u := by
  obtain ⟨l, u, heq, ⟨hl, hu⟩, hps⟩ := foldl_insert ps p p
  refine ⟨l, u, ?_, forall_mem_cons.mpr ⟨⟨hl, hu⟩, hps⟩⟩
  rw [ofPoints, map_cons, foldl_cons, insert_empty, heq]

/-- The corners of a box with real corners. -/
def cornersOf (l u : Vec3 ℝ) : List (Vec3 ℝ) :=
  [⟨l.x, l.y, l.z⟩, ⟨u.x, l.y, l.z⟩, ⟨l.x, u.y, l.z⟩, ⟨u.x, u.y, l.z⟩,
    ⟨l.x, l.y, u.z⟩, ⟨u.x, l.y, u.z⟩, ⟨l.x, u.y, u.z⟩, ⟨u.x, u.y, u.z⟩]

/-- The corners of a box take each coordinate from one of two. -/
lemma corners_ofCorners (l u : Vec3 ℝ) : (ofCorners l u).corners = (cornersOf l u).map exact :=
  rfl

/-- Every choice of coordinates is a corner. -/
lemma mem_cornersOf {x y z : ℝ} (hx : x = l.x ∨ x = u.x) (hy : y = l.y ∨ y = u.y)
    (hz : z = l.z ∨ z = u.z) : ⟨x, y, z⟩ ∈ cornersOf l u := by
  rcases hx with rfl | rfl <;> rcases hy with rfl | rfl <;> rcases hz with rfl
    | rfl <;> simp [cornersOf]

end Bounds

/-- A function of points that is linear up to a constant. -/
def IsAffine (g : Vec3 ℝ → ℝ) : Prop := ∃ a b c d : ℝ, ∀ v, g v = a * v.x + b * v.y + c * v.z + d

/-- One of the ends of an interval makes a multiple the least. -/
lemma exists_end_mul_le (a : ℝ) {l u x : ℝ} (hl : l ≤ x) (hu : x ≤ u) :
    ∃ e, (e = l ∨ e = u) ∧ a * e ≤ a * x := by
  rcases le_total 0 a with ha | ha
  · exact ⟨l, .inl rfl, mul_le_mul_of_nonneg_left hl ha⟩
  · exact ⟨u, .inr rfl, mul_le_mul_of_nonpos_left hu ha⟩

namespace IsAffine

variable {g : Vec3 ℝ → ℝ} {l u p : Vec3 ℝ}

/-- In a box, an affine function is least at a corner. -/
lemma exists_corner_le (hg : IsAffine g) (hl : l.Below p) (hu : p.Below u) :
    ∃ c ∈ cornersOf l u, g c ≤ g p := by
  obtain ⟨a, b, c, d, hg⟩ := hg
  obtain ⟨x, hx, hax⟩ := exists_end_mul_le a hl.1 hu.1
  obtain ⟨y, hy, hby⟩ := exists_end_mul_le b hl.2.1 hu.2.1
  obtain ⟨z, hz, hcz⟩ := exists_end_mul_le c hl.2.2 hu.2.2
  refine ⟨⟨x, y, z⟩, mem_cornersOf hx hy hz, ?_⟩
  rw [hg, hg]
  linarith

/-- The negative of an affine function is affine. -/
lemma neg (hg : IsAffine g) : IsAffine fun v => -g v := by
  obtain ⟨a, b, c, d, hg⟩ := hg
  refine ⟨-a, -b, -c, -d, fun v => ?_⟩
  dsimp only
  rw [hg]
  ring

/-- An affine function is largest at a corner. -/
lemma exists_le_corner (hg : IsAffine g) (hl : l.Below p) (hu : p.Below u) :
    ∃ c ∈ cornersOf l u, g p ≤ g c := by
  obtain ⟨c, hc, hle⟩ := hg.neg.exists_corner_le hl hu
  exact ⟨c, hc, neg_le_neg_iff.mp hle⟩

end IsAffine

/-- A map of points whose coordinates are affine. -/
structure IsAffineMap (f : Vec3 ℝ → Vec3 ℝ) : Prop where
  x : IsAffine fun v => (f v).x
  y : IsAffine fun v => (f v).y
  z : IsAffine fun v => (f v).z

namespace Bounds

variable {b : Bounds Exact} {l u p : Vec3 ℝ} {F : Vec3 Exact → Vec3 Exact} {f : Vec3 ℝ → Vec3 ℝ}

/-- An empty box stays as it is. -/
lemma mapCorners_of_isEmpty (hb : b.isEmpty = true) : b.mapCorners F = b := if_pos hb

/-- The box around the images of the corners has real corners, and the images are in it. -/
lemma mapCorners_ofCorners (h : l.Below u) (hF : ∀ v : Vec3 ℝ, F v.exact = (f v).exact) :
    ∃ l' u', (ofCorners l u).mapCorners F = ofCorners l' u' ∧
      ∀ c ∈ cornersOf l u, l'.Below (f c) ∧ (f c).Below u' := by
  have hne : (ofCorners l u).isEmpty ≠ true := Bool.eq_false_iff.mp (isEmpty_ofCorners.mpr h)
  have hmap : (ofCorners l u).corners.map F = ((cornersOf l u).map f).map exact := by
    rw [corners_ofCorners, map_map, map_map]
    exact map_congr_left fun v _ => hF v
  obtain ⟨l', u', heq, hall⟩ := ofPoints_cons (f ⟨l.x, l.y, l.z⟩) ((cornersOf l u).tail.map f)
  refine ⟨l', u', ?_, fun c hc => hall (f c) (mem_map_of_mem hc)⟩
  rw [mapCorners, if_neg hne, hmap]
  exact heq

/-- The box of moved corners is proper. -/
lemma Proper.mapCorners (hb : b.Proper) (hF : ∀ v : Vec3 ℝ, F v.exact = (f v).exact) :
    (b.mapCorners F).Proper := by
  cases hempty : b.isEmpty with
  | true =>
    rw [mapCorners_of_isEmpty hempty]
    exact hb
  | false =>
    obtain ⟨l, u, rfl, hlu⟩ := hb.eq_ofCorners hempty
    obtain ⟨l', u', heq, -⟩ := mapCorners_ofCorners hlu hF
    rw [heq]
    exact proper_ofCorners _ _

/-- The image of a point of a box is in the box around the images of the corners. -/
lemma mem_mapCorners (hb : b.Proper) (hF : ∀ v : Vec3 ℝ, F v.exact = (f v).exact)
    (hf : IsAffineMap f) (hp : p.exact ∈ b) : (f p).exact ∈ b.mapCorners F := by
  obtain ⟨l, u, rfl, hl, hu⟩ := hb.exists_corners hp
  obtain ⟨l', u', heq, hall⟩ := mapCorners_ofCorners (hl.trans hu) hF
  rw [heq, mem_ofCorners]
  -- each coordinate of the image has its least and its largest value at a corner
  obtain ⟨c₁, hc₁, h₁⟩ := hf.x.exists_corner_le hl hu
  obtain ⟨c₂, hc₂, h₂⟩ := hf.y.exists_corner_le hl hu
  obtain ⟨c₃, hc₃, h₃⟩ := hf.z.exists_corner_le hl hu
  obtain ⟨d₁, hd₁, k₁⟩ := hf.x.exists_le_corner hl hu
  obtain ⟨d₂, hd₂, k₂⟩ := hf.y.exists_le_corner hl hu
  obtain ⟨d₃, hd₃, k₃⟩ := hf.z.exists_le_corner hl hu
  refine ⟨⟨?_, ?_, ?_⟩, ?_, ?_, ?_⟩
  · exact (hall c₁ hc₁).1.1.trans h₁
  · exact (hall c₂ hc₂).1.2.1.trans h₂
  · exact (hall c₃ hc₃).1.2.2.trans h₃
  · exact k₁.trans (hall d₁ hd₁).2.1
  · exact k₂.trans (hall d₂ hd₂).2.2.1
  · exact k₃.trans (hall d₃ hd₃).2.2.2

end Bounds

/-! ## Shapes -/

/-- The box of a glyph lies around its center. -/
lemma Glyph.bounds_exact (g : Glyph ℝ) :
    (g.map Exact.real).bounds =
    .ofCorners ⟨g.center.x - g.half.x, g.center.y - g.half.y, 0⟩ ⟨g.center.x + g.half.x,
      g.center.y + g.half.y, 0⟩ := rfl

namespace Shape

variable (a b inner : Shape ℝ) (k : ℝ)

lemma max_zero_coe : Scalar.max (k : Exact) 0 = (max k 0 : ℝ) := Exact.max_coe k 0

/-- The box of a frustum has its larger radius. -/
lemma bounds_frustum (r1 r2 halfHeight : ℝ) : (frustum r1 r2 halfHeight).exact.bounds =
    .ofCorners ⟨-max r1 r2, -max r1 r2, -halfHeight⟩ ⟨max r1 r2, max r1 r2, halfHeight⟩ := by
  show ofHalf ⟨Scalar.max (r1 : Exact) r2, Scalar.max (r1 : Exact) r2, (halfHeight : Exact)⟩ = _
  rw [Exact.max_coe]
  rfl

/-- The box of a union has the width of its rounding as a margin. -/
lemma bounds_union : (union a b k).exact.bounds = (a.exact.bounds.union b.exact.bounds).pad
    (max k 0 : ℝ) :=
  congrArg (a.exact.bounds.union b.exact.bounds).pad (max_zero_coe k)

lemma bounds_blend : (blend a b k).exact.bounds = (a.exact.bounds.union b.exact.bounds).pad
    (max k 0 : ℝ) :=
  congrArg (a.exact.bounds.union b.exact.bounds).pad (max_zero_coe k)

/-- The box of a difference is that of the first part, with a margin. -/
lemma bounds_difference : (difference a b k).exact.bounds = a.exact.bounds.pad (max k 0 : ℝ) :=
  congrArg a.exact.bounds.pad (max_zero_coe k)

/-- The box of a wall has half its thickness as a margin. -/
lemma bounds_shell (thickness : ℝ) :
    (shell inner thickness).exact.bounds = inner.exact.bounds.pad (thickness / 2 : ℝ) := by
  show inner.exact.bounds.pad ((thickness : Exact) / 2.0) = _
  rw [Exact.two_eq_coe, Exact.div_coe _ two_ne_zero]

/-- The box of a text holds the boxes of its glyphs and nothing that is not real. -/
lemma foldl_glyphs (glyphs : List (Glyph ℝ)) (box : Bounds Exact) (hbox : box.Proper) :
    let all := (glyphs.map (·.map Exact.real)).foldl (fun b g => b.union g.bounds) box
    all.Proper ∧ (∀ p : Vec3 ℝ, p.exact ∈ box → p.exact ∈ all) ∧
      ∀ g ∈ glyphs, ∀ p : Vec3 ℝ, p.exact ∈ (g.map Exact.real).bounds → p.exact ∈ all := by
  induction glyphs generalizing box with
  | nil => exact ⟨hbox, fun _ hp => hp, fun g hg => absurd hg not_mem_nil⟩
  | cons g glyphs ih =>
    have hg : (g.map Exact.real).bounds.Proper := g.bounds_exact ▸ proper_ofCorners _ _
    obtain ⟨hproper, hkeep, hrest⟩ := ih _ (hbox.union hg)
    refine ⟨hproper, fun p hp => hkeep p (mem_union_left hbox hg hp),
      forall_mem_cons.mpr ⟨fun p hp => ?_, hrest⟩⟩
    exact hkeep p (mem_union_right hbox hg hp)

/-- The box of a shape is proper, whatever numbers are in the shape. -/
theorem proper_bounds (s : Shape ℝ) : s.exact.bounds.Proper := by
  induction s with
  | sphere radius => exact proper_ofCorners ⟨-radius, -radius, -radius⟩ ⟨radius, radius, radius⟩
  | box half => exact proper_ofCorners ⟨-half.x, -half.y, -half.z⟩ half
  | frustum r1 r2 halfHeight =>
    rw [bounds_frustum]
    exact proper_ofCorners _ _
  | circle radius => exact proper_ofCorners ⟨-radius, -radius, -0⟩ ⟨radius, radius, 0⟩
  | rectangle half => exact proper_ofCorners ⟨-half.x, -half.y, -0⟩ ⟨half.x, half.y, 0⟩
  | text font content glyphs => exact (foldl_glyphs glyphs _ proper_empty).1
  | union a b k iha ihb =>
    rw [bounds_union]
    exact (iha.union ihb).pad _
  | difference a b k iha ihb =>
    rw [bounds_difference]
    exact iha.pad _
  | intersection a b k iha ihb => exact iha.inter ihb
  | blend a b k iha ihb =>
    rw [bounds_blend]
    exact (iha.union ihb).pad _
  | translate inner offset ih => exact ih.mapCorners (f := (· + offset)) fun _ => rfl
  | rotate inner rotation ih => exact ih.mapCorners (f := rotation.apply) fun _ => rfl
  | scale inner factor ih => exact ih.mapCorners (f := (·.times factor)) fun _ => rfl
  | mirror inner normal ih => exact ih.mapCorners (f := (·.reflect normal)) fun _ => rfl
  | extrude inner halfHeight ih => exact ⟨ih.x, ih.y, isSpan_coe (-halfHeight) halfHeight⟩
  | shell inner thickness ih =>
    rw [bounds_shell]
    exact ih.pad _

/-! What is done to a shape is done to the points of its box. -/

variable {inner} {q : Vec3 ℝ} (h : q.exact ∈ inner.exact.bounds)

include h

/-- The box moves along with the points. -/
lemma mem_bounds_translate (offset : Vec3 ℝ) :
    (q + offset).exact ∈ (translate inner offset).exact.bounds := by
  refine mem_mapCorners (f := (· + offset)) (proper_bounds inner) (fun _ => rfl) ⟨?_, ?_, ?_⟩ h
  · exact ⟨1, 0, 0, offset.x, fun v => show v.x + offset.x = _ by ring⟩
  · exact ⟨0, 1, 0, offset.y, fun v => show v.y + offset.y = _ by ring⟩
  · exact ⟨0, 0, 1, offset.z, fun v => show v.z + offset.z = _ by ring⟩

/-- The box holds the turned points. -/
lemma mem_bounds_rotate (r : Rotation ℝ) : (r.apply q).exact ∈ (rotate inner r).exact.bounds := by
  refine mem_mapCorners (f := r.apply) (proper_bounds inner) (fun _ => rfl) ⟨?_, ?_, ?_⟩ h
  · exact ⟨r.col1.x, r.col2.x, r.col3.x, 0, fun v => (add_zero _).symm⟩
  · exact ⟨r.col1.y, r.col2.y, r.col3.y, 0, fun v => (add_zero _).symm⟩
  · exact ⟨r.col1.z, r.col2.z, r.col3.z, 0, fun v => (add_zero _).symm⟩

/-- The box holds the scaled points. -/
lemma mem_bounds_scale (factor : Vec3 ℝ) :
    (q.times factor).exact ∈ (scale inner factor).exact.bounds := by
  refine mem_mapCorners (f := (·.times factor)) (proper_bounds inner) (fun _ => rfl) ⟨?_, ?_, ?_⟩ h
  · exact ⟨factor.x, 0, 0, 0, fun v => show v.x * factor.x = _ by ring⟩
  · exact ⟨0, factor.y, 0, 0, fun v => show v.y * factor.y = _ by ring⟩
  · exact ⟨0, 0, factor.z, 0, fun v => show v.z * factor.z = _ by ring⟩

/-- The box holds the mirrored points. -/
lemma mem_bounds_mirror (n : Vec3 ℝ) : (q.reflect n).exact ∈ (mirror inner n).exact.bounds := by
  refine mem_mapCorners (f := (·.reflect n)) (proper_bounds inner) (fun _ => rfl) ⟨?_, ?_, ?_⟩ h
  · refine ⟨1 - 2 * n.x * n.x, -(2 * n.x * n.y), -(2 * n.x * n.z), 0, fun v => ?_⟩
    dsimp only
    rw [reflect_eq]
    ring
  · refine ⟨-(2 * n.y * n.x), 1 - 2 * n.y * n.y, -(2 * n.y * n.z), 0, fun v => ?_⟩
    dsimp only
    rw [reflect_eq]
    ring
  · refine ⟨-(2 * n.z * n.x), -(2 * n.z * n.y), 1 - 2 * n.z * n.z, 0, fun v => ?_⟩
    dsimp only
    rw [reflect_eq]
    ring

end Shape

end SolidScript
