import SolidScript.Proofs.Geometry.Motions

/-!
# The box of a shape holds its inside

Where nothing is rounded outwards, every point with a negative distance is in the box of a solid. A
text without glyphs is infinitely far from every point, and an infinite distance has no place in a
weighted mean: a rounded combination with such an operand has no distance at all, and what is swept
from it reaches to infinity.
-/

namespace SolidScript

open Exact Bounds

section

variable {a b : Exact} {k : ℝ} (hk : k ≤ 0)

include hk

lemma smoothUnion_of_nonpos : smoothUnion a b k = Scalar.min a b := if_pos hk

lemma smoothDifference_of_nonpos : smoothDifference a b k = Scalar.max a (-b) := if_pos hk

lemma smoothIntersection_of_nonpos : smoothIntersection a b k = Scalar.max a b := if_pos hk

end

section

variable {k : ℝ} (hk : 0 < k)

include hk

/-- A quotient of infinity by a width. -/
lemma half_posInf_div : (0.5 : Exact) * .posInf / k = .posInf := by
  rw [half_eq_coe]
  show Exact.div (towards (1 / 2)) k = .posInf
  rw [towards, if_pos (by norm_num)]
  exact if_neg hk.not_gt

lemma smoothUnion_of_pos (a b : Exact) {h : Exact}
    (hshare : Scalar.clamp (0.5 + 0.5 * (b - a) / k) 0 1 = h) :
    smoothUnion a b k = Scalar.lerp b a h - k * h * (1 - h) := by
  refine (if_neg (show ¬(k : Exact) ≤ 0 from not_le.mpr hk)).trans ?_
  dsimp only
  rw [hshare]

/-! A union with a rounding has no distance where one of its parts is infinitely far away. -/

lemma smoothUnion_posInf_coe (y : ℝ) : smoothUnion .posInf (y : Exact) k = .nan := by
  have hquot : (0.5 : Exact) * .negInf / k = .negInf := by
    rw [half_eq_coe]
    show Exact.div (towards (-(1 / 2))) k = .negInf
    rw [towards, if_neg (by norm_num), if_pos (by norm_num)]
    exact if_neg hk.not_gt
  have hshare : Scalar.clamp (0.5 + 0.5 * ((y : Exact) - .posInf) / k) 0 1 = (0 : ℝ) := by
    show Scalar.clamp (0.5 + 0.5 * .negInf / (k : Exact)) 0 1 = (0 : ℝ)
    rw [hquot, half_eq_coe]
    exact if_pos trivial
  have hmean : Scalar.lerp (y : Exact) .posInf (0 : ℝ) = .nan := by
    show Exact.add y (towards 0) = .nan
    rw [towards, if_neg (lt_irrefl 0), if_neg (lt_irrefl 0)]
    rfl
  rw [smoothUnion_of_pos hk _ _ hshare, hmean]
  rfl

lemma smoothUnion_coe_posInf (x : ℝ) : smoothUnion (x : Exact) .posInf k = .nan := by
  have hshare : Scalar.clamp (0.5 + 0.5 * (.posInf - (x : Exact)) / k) 0 1 = (1 : ℝ) := by
    show Scalar.clamp (0.5 + 0.5 * .posInf / (k : Exact)) 0 1 = (1 : ℝ)
    rw [half_posInf_div hk, half_eq_coe]
    exact (if_neg id).trans (if_pos trivial)
  have hmean : Scalar.lerp .posInf (x : Exact) (1 : ℝ) = .nan := by
    show Exact.add .posInf (towards (-1)) = .nan
    rw [towards, if_neg (by norm_num), if_pos (by norm_num)]
    rfl
  rw [smoothUnion_of_pos hk _ _ hshare, hmean]
  rfl

lemma smoothUnion_posInf_posInf : smoothUnion .posInf .posInf (k : Exact) = .nan := by
  -- no comparison with what is not a number holds, so it is not kept between zero and one
  have hshare : Scalar.clamp (0.5 + 0.5 * (.posInf - .posInf) / (k : Exact)) 0 1 = .nan :=
    (if_neg id).trans (if_neg id)
  rw [smoothUnion_of_pos hk _ _ hshare]
  rfl

end

namespace Shape

/-- Nothing is left of the shape but texts without glyphs. -/
def Blank : Shape ℝ → Prop
  | sphere _ | box _ | frustum _ _ _ | circle _ | rectangle _ => False
  | text _ _ glyphs => glyphs = []
  | union a b _ | blend a b _ => a.Blank ∧ b.Blank
  | difference a _ _ => a.Blank
  | intersection a b _ => a.Blank ∨ b.Blank
  | translate inner _ | rotate inner _ | scale inner _ | mirror inner _ | extrude inner _
  | shell inner _ => inner.Blank

/-- No blank shape is blended, or combined with a rounding. -/
def Defined : Shape ℝ → Prop
  | sphere _ | box _ | frustum _ _ _ | circle _ | rectangle _ | text _ _ _ => True
  | union a b k | difference a b k | intersection a b k =>
    (0 < k → ¬a.Blank ∧ ¬b.Blank) ∧ a.Defined ∧ b.Defined
  | blend a b _ => (¬a.Blank ∧ ¬b.Blank) ∧ a.Defined ∧ b.Defined
  | translate inner _ | rotate inner _ | scale inner _ | mirror inner _ | extrude inner _
  | shell inner _ => inner.Defined

/-! Where an operand is blank, there is no rounding. -/

variable {k : ℝ} {s inner : Shape ℝ} {p : Vec3 ℝ}

lemma nonpos_of_blank_left {a b : Shape ℝ} (h : 0 < k → ¬a.Blank ∧ ¬b.Blank) (ha : a.Blank) :
    k ≤ 0 :=
  not_lt.mp fun hk => (h hk).1 ha

lemma nonpos_of_blank_right {a b : Shape ℝ} (h : 0 < k → ¬a.Blank ∧ ¬b.Blank) (hb : b.Blank) :
    k ≤ 0 :=
  not_lt.mp fun hk => (h hk).2 hb

/-- The distance of a point, without rounding. -/
noncomputable abbrev value (s : Shape ℝ) (p : Vec3 ℝ) : Exact := s.exact.distance p.exact

/-- The distance is infinite if a shape is blank, and real otherwise. -/
def Valued (blank : Prop) (x : Exact) : Prop := blank ∧ x = .posInf ∨ ¬blank ∧ ∃ d : ℝ, x = d

def HasValue (s : Shape ℝ) (p : Vec3 ℝ) : Prop := Valued s.Blank (s.value p)

lemma HasValue.eq_or (h : s.HasValue p) : s.value p = .posInf ∨ ∃ d : ℝ, s.value p = d :=
  h.imp And.right And.right

section

variable {back forth : Vec3 ℝ → Vec3 ℝ} {c d : ℝ} (h : s.IsMoved inner back forth c)

include h

lemma IsMoved.value (p : Vec3 ℝ) : s.value p = inner.value (back p) * (c : Exact) := h.distance p

lemma IsMoved.hasValue (hblank : s.Blank ↔ inner.Blank) (hv : inner.HasValue (back p)) :
    s.HasValue p := by
  unfold HasValue
  rw [hblank, h.value]
  rcases hv with ⟨hb, hd⟩ | ⟨hb, d, hd⟩
  · exact .inl ⟨hb, by rw [hd, posInf_mul h.pos]⟩
  · exact .inr ⟨hb, d * c, by rw [hd, mul_coe]⟩

lemma IsMoved.exists_value (hv : inner.HasValue (back p)) (hd : s.value p = d) :
    ∃ e : ℝ, inner.value (back p) = e ∧ e * c = d := by
  rw [h.value] at hd
  rcases hv with ⟨-, he⟩ | ⟨-, e, he⟩ <;> rw [he] at hd
  · rw [posInf_mul h.pos] at hd
    cases hd
  · rw [mul_coe, coe_inj] at hd
    exact ⟨e, he, hd⟩

end

/-- The shape is a primitive body. -/
def IsLeaf : Shape ℝ → Prop
  | sphere _ | box _ | frustum _ _ _ | circle _ | rectangle _ | text _ _ _ => True
  | _ => False

/-- A text without glyphs is infinitely far away, and every other primitive body is as near as its
distance says. -/
lemma near_of_isLeaf (hr : s.Regular) (hleaf : s.IsLeaf) (p : Vec3 ℝ) :
    s.Blank ∧ s.value p = .posInf ∨ ¬s.Blank ∧ ∃ d : ℝ, s.value p = d ∧ s.Near p (max d 0) := by
  cases s with
  | sphere r => exact .inr ⟨id, near_sphere hr p⟩
  | box half => exact .inr ⟨id, near_box hr.1 hr.2.1 hr.2.2 p⟩
  | frustum r1 r2 h => exact .inr ⟨id, near_frustum hr.1 hr.2.1 hr.2.2 p⟩
  | circle r => exact .inr ⟨id, near_circle hr p⟩
  | rectangle half => exact .inr ⟨id, near_rectangle hr.1 hr.2 p⟩
  | text font content glyphs =>
    by_cases hne : glyphs = []
    · exact .inl ⟨hne, by rw [value, distance_text, hne]; rfl⟩
    · exact .inr ⟨hne, near_text font content hne hr p⟩
  | _ => exact hleaf.elim

/-- Every regular shape that is defined has a distance to every point. -/
theorem hasValue (hr : s.Regular) (hd : s.Defined) (p : Vec3 ℝ) : s.HasValue p := by
  -- the point is generalized, since moved and swept shapes ask their parts at other points
  induction s generalizing p with
  | sphere | box | frustum | circle | rectangle | text =>
    exact (near_of_isLeaf hr trivial p).imp id fun h => ⟨h.1, h.2.imp fun _ => And.left⟩
  | union a b k iha ihb =>
    show Valued _ (smoothUnion (a.value p) (b.value p) (k : Exact))
    rcases iha hr.1 hd.2.1 p with ⟨ha, hda⟩ | ⟨ha, da, hda⟩ <;> rcases ihb hr.2 hd.2.2 p with
      ⟨hb, hdb⟩ | ⟨hb, db, hdb⟩
    · have hk : k ≤ 0 := nonpos_of_blank_left hd.1 ha
      exact .inl ⟨⟨ha, hb⟩, by rw [hda, hdb, smoothUnion_of_nonpos hk, min_idem]⟩
    · have hk : k ≤ 0 := nonpos_of_blank_left hd.1 ha
      exact .inr ⟨fun h => hb h.2, db, by rw [hda, hdb, smoothUnion_of_nonpos hk, posInf_min]⟩
    · have hk : k ≤ 0 := nonpos_of_blank_right hd.1 hb
      exact .inr ⟨fun h => ha h.1, da, by rw [hda, hdb, smoothUnion_of_nonpos hk, min_posInf]⟩
    · exact .inr ⟨fun h => ha h.1, _, by rw [hda, hdb, smoothUnion_coe]⟩
  | difference a b k iha ihb =>
    show Valued _ (smoothDifference (a.value p) (b.value p) (k : Exact))
    rcases iha hr.1 hd.2.1 p with ⟨ha, hda⟩ | ⟨ha, da, hda⟩
    · have hk : k ≤ 0 := nonpos_of_blank_left hd.1 ha
      exact .inl ⟨ha, by rw [hda, smoothDifference_of_nonpos hk, posInf_max]⟩
    · rcases ihb hr.2 hd.2.2 p with ⟨hb, hdb⟩ | ⟨hb, db, hdb⟩
      · -- cutting away nothing changes nothing
        have hk : k ≤ 0 := nonpos_of_blank_right hd.1 hb
        exact .inr ⟨ha, da, by rw [hda, hdb, smoothDifference_of_nonpos hk]; exact max_negInf da⟩
      · exact .inr ⟨ha, _, by rw [hda, hdb, smoothDifference_coe]⟩
  | intersection a b k iha ihb =>
    show Valued _ (smoothIntersection (a.value p) (b.value p) (k : Exact))
    rcases iha hr.1 hd.2.1 p with ⟨ha, hda⟩ | ⟨ha, da, hda⟩
    · have hk : k ≤ 0 := nonpos_of_blank_left hd.1 ha
      exact .inl ⟨.inl ha, by rw [hda, smoothIntersection_of_nonpos hk, posInf_max]⟩
    · rcases ihb hr.2 hd.2.2 p with ⟨hb, hdb⟩ | ⟨hb, db, hdb⟩
      · have hk : k ≤ 0 := nonpos_of_blank_right hd.1 hb
        exact .inl ⟨.inr hb, by rw [hda, hdb, smoothIntersection_of_nonpos hk, max_posInf]⟩
      · exact .inr ⟨fun h => h.elim ha hb, _, by rw [hda, hdb, smoothIntersection_coe]⟩
  | blend a b k iha ihb =>
    obtain ⟨ha, -⟩ | ⟨-, da, hda⟩ := iha hr.1 hd.2.1 p
    · exact absurd ha hd.1.1
    obtain ⟨hb, -⟩ | ⟨-, db, hdb⟩ := ihb hr.2 hd.2.2 p
    · exact absurd hb hd.1.2
    refine .inr ⟨fun h => hd.1.1 h.1, da + (db - da) * k, ?_⟩
    show Scalar.lerp (a.value p) (b.value p) (k : Exact) = _
    rw [hda, hdb, lerp_coe]
  | translate inner offset ih => exact (isMoved_translate hr).hasValue .rfl (ih hr.1 hd _)
  | rotate inner r ih => exact (isMoved_rotate hr).hasValue .rfl (ih hr.1 hd _)
  | scale inner factor ih => exact (isMoved_scale hr).hasValue .rfl (ih hr.1 hd _)
  | mirror inner n ih => exact (isMoved_mirror hr).hasValue .rfl (ih hr.1 hd _)
  | extrude inner h ih =>
    rcases ih hr.1 hd ⟨p.x, p.y, 0⟩ with ⟨hb, hdist⟩ | ⟨hb, d, hdist⟩
    · exact .inl ⟨hb, distance_extrude_posInf h hdist⟩
    · exact .inr ⟨hb, _, distance_extrude_coe h hdist⟩
  | shell inner t ih =>
    show Valued _ (Scalar.abs (inner.value p) - (t : Exact) / 2.0)
    rw [two_eq_coe, div_coe _ two_ne_zero]
    rcases ih hr hd p with ⟨hb, hdist⟩ | ⟨hb, d, hdist⟩
    · exact .inl ⟨hb, by rw [hdist]; rfl⟩
    · exact .inr ⟨hb, |d| - t / 2, by rw [hdist, abs_coe, sub_coe]⟩

/-! ## What a node takes away -/

/-- A mean of distances of which one is infinite is no real number, and not minus infinity. -/
lemma lerp_posInf {a b : Exact} (ha : a = .posInf ∨ ∃ x : ℝ, a = x)
    (hb : b = .posInf ∨ ∃ y : ℝ, b = y) (h : a = .posInf ∨ b = .posInf) (hk : 0 ≤ k) :
    Scalar.lerp a b (k : Exact) = .posInf ∨ Scalar.lerp a b (k : Exact) = .nan := by
  rcases ha with rfl | ⟨x, rfl⟩
  · refine .inr ?_
    rcases hb with rfl | ⟨y, rfl⟩
    · rfl
    · show Exact.add .posInf (towards (-k)) = .nan
      rw [towards, if_neg (by linarith)]
      split <;> rfl
  · rcases h with h | rfl
    · cases h
    · show Exact.add x (towards k) = .posInf ∨ Exact.add x (towards k) = .nan
      rw [towards]
      split
      · exact .inl rfl
      · rw [if_neg hk.not_gt]
        exact .inr rfl

section

variable {a b : Shape ℝ} {k d : ℝ} {p : Vec3 ℝ} (hva : a.HasValue p) (hvb : b.HasValue p)

include hva hvb

/-- A union is at most its rounding nearer than one of its parts, or it has no real distance. -/
lemma union_cases (k : ℝ) :
    (∃ d e : ℝ, (union a b k).value p = d ∧ (a.value p = e ∨ b.value p = e) ∧
      e ≤ d + max k 0) ∨
    (union a b k).value p = .posInf ∨ (union a b k).value p = .nan := by
  have hdist : (union a b k).value p =
    smoothUnion (a.value p) (b.value p) (k : Exact) := rfl
  rw [hdist]
  have hadd (e : ℝ) : e ≤ e + max k 0 := le_add_of_nonneg_right (le_max_right k 0)
  rcases hva with ⟨-, hda⟩ | ⟨-, da, hda⟩ <;> rcases hvb with ⟨-, hdb⟩ | ⟨-, db, hdb⟩ <;>
    rw [hda, hdb]
  · rcases le_or_gt k 0 with hk | hk
    · exact .inr (.inl (by rw [smoothUnion_of_nonpos hk, min_idem]))
    · exact .inr (.inr (smoothUnion_posInf_posInf hk))
  · rcases le_or_gt k 0 with hk | hk
    · exact .inl ⟨db, db, by rw [smoothUnion_of_nonpos hk, posInf_min], .inr rfl, hadd db⟩
    · exact .inr (.inr (smoothUnion_posInf_coe hk db))
  · rcases le_or_gt k 0 with hk | hk
    · exact .inl ⟨da, da, by rw [smoothUnion_of_nonpos hk, min_posInf], .inl rfl, hadd da⟩
    · exact .inr (.inr (smoothUnion_coe_posInf hk da))
  · refine .inl ⟨roundedMin da db k, min da db, smoothUnion_coe da db k,
      ?_, by linarith [min_sub_le_roundedMin da db k]⟩
    rcases min_choice da db with h | h <;> rw [h]
    · exact .inl rfl
    · exact .inr rfl

/-- A difference is at least as far away as what is cut. -/
lemma exists_le_of_difference (hblank : 0 < k → ¬a.Blank ∧ ¬b.Blank)
    (hd : (difference a b k).value p = d) : ∃ e : ℝ, a.value p = e ∧ e ≤ d := by
  replace hd : smoothDifference (a.value p) (b.value p) (k : Exact) = d := hd
  rcases hva with ⟨hba, hda⟩ | ⟨-, da, hda⟩
  · have hk : k ≤ 0 := nonpos_of_blank_left hblank hba
    rw [hda, smoothDifference_of_nonpos hk, posInf_max] at hd
    cases hd
  · refine ⟨da, hda, ?_⟩
    rcases hvb with ⟨hbb, hdb⟩ | ⟨-, db, hdb⟩ <;> rw [hda, hdb] at hd
    · have hk : k ≤ 0 := nonpos_of_blank_right hblank hbb
      rw [smoothDifference_of_nonpos hk] at hd
      exact ((coe_inj da d).mp ((max_negInf da).symm.trans hd)).le
    · rw [smoothDifference_coe, coe_inj] at hd
      exact hd ▸ le_roundedMax_left da (-db) k

/-- A mean is at least as far away as the nearer of its parts. -/
lemma exists_le_of_blend (hk : 0 ≤ k ∧ k ≤ 1) (hd : (blend a b k).value p = d) :
    ∃ e : ℝ, (a.value p = e ∨ b.value p = e) ∧ e ≤ d := by
  replace hd : Scalar.lerp (a.value p) (b.value p) (k : Exact) = d := hd
  by_cases hinf : a.value p = .posInf ∨ b.value p = .posInf
  · rcases lerp_posInf hva.eq_or hvb.eq_or hinf hk.1 with h | h <;> cases h.symm.trans hd
  · rw [not_or] at hinf
    obtain ⟨da, hda⟩ := hva.eq_or.resolve_left hinf.1
    obtain ⟨db, hdb⟩ := hvb.eq_or.resolve_left hinf.2
    rw [hda, hdb, lerp_coe, coe_inj] at hd
    refine ⟨min da db, ?_, hd ▸ min_le_lerp da db hk.1 hk.2⟩
    rcases min_choice da db with h | h <;> rw [h]
    · exact .inl hda
    · exact .inr hdb

end

/-! ## Containment -/

/-- No union is rounded, blends have weights between zero and one, and there are no walls. -/
def Sharp : Shape ℝ → Prop
  | sphere _ | box _ | frustum _ _ _ | circle _ | rectangle _ | text _ _ _ => True
  | union a b k => k ≤ 0 ∧ a.Sharp ∧ b.Sharp
  | difference a b _ | intersection a b _ => a.Sharp ∧ b.Sharp
  | blend a b k => (0 ≤ k ∧ k ≤ 1) ∧ a.Sharp ∧ b.Sharp
  | translate inner _ | rotate inner _ | scale inner _ | mirror inner _ | extrude inner _ =>
    inner.Sharp
  | shell _ _ => False

/-- The inside of a shape is in its box, in the plane if the shape is flat. -/
def Contained (s : Shape ℝ) : Prop :=
  ∀ (p : Vec3 ℝ) (d : ℝ), s.exact.distance p.exact = d → d < 0 → (s.dimension.place p).exact ∈
    s.exact.bounds

/-- The box of a shape comes as near to every point as the distance says. -/
def Reaches (s : Shape ℝ) : Prop :=
  ∀ (p : Vec3 ℝ) (d : ℝ), s.exact.distance p.exact = d → s.Near p (max d 0)

lemma Reaches.contained (h : s.Reaches) : s.Contained := by
  intro p d hd hneg
  have hnear := h p d hd
  rw [max_eq_right hneg.le] at hnear
  exact hnear.mem

lemma reaches_of_isLeaf (hr : s.Regular) (hleaf : s.IsLeaf) : s.Reaches := by
  intro p d hd
  rcases near_of_isLeaf hr hleaf p with ⟨-, hinf⟩ | ⟨-, e, he, hnear⟩
  · cases hinf.symm.trans hd
  · obtain rfl : d = e := (coe_inj d e).mp (hd.symm.trans he)
    exact hnear

lemma IsMoved.contained {back forth : Vec3 ℝ → Vec3 ℝ} {c : ℝ} (h : s.IsMoved inner back forth c)
    (hv : ∀ p, inner.HasValue p) (hin : inner.Contained) : s.Contained := by
  intro p d hd hneg
  obtain ⟨e, he, rfl⟩ := h.exists_value (hv _) hd
  have hmem := h.mem _ (hin (back p) e he (neg_of_mul_neg_left hneg h.pos.le))
  rwa [h.motion.forth_place_back, ← h.dimension] at hmem

/-! Combined shapes, one node at a time: `a` and `b` have values and are contained. -/

section

variable {a b : Shape ℝ} {k : ℝ} (hva : ∀ p, a.HasValue p) (hvb : ∀ p, b.HasValue p)
  (ha : a.Contained)

include ha

/-- Where one of two shapes is negative, the point is in the box around both. -/
lemma Contained.mem_union (hb : b.Contained) (hdim : a.dimension = b.dimension) {d : ℝ}
    (h : a.value p = d ∨ b.value p = d) (hneg : d < 0) :
    (a.dimension.place p).exact ∈ a.exact.bounds.union b.exact.bounds := by
  rcases h with h | h
  · exact mem_union_left a.proper_bounds b.proper_bounds (ha p d h hneg)
  · rw [hdim]
    exact mem_union_right a.proper_bounds b.proper_bounds (hb p d h hneg)

include hva hvb

lemma Contained.union (hk : k ≤ 0) (hb : b.Contained) (hdim : a.dimension = b.dimension) :
    (Shape.union a b k).Contained := by
  intro p d hd hneg
  rcases union_cases (hva p) (hvb p) k with ⟨d', e, hd', he, hle⟩ | h | h
  · obtain rfl : d = d' := (coe_inj d d').mp (hd.symm.trans hd')
    rw [max_eq_right hk, add_zero] at hle
    rw [bounds_union]
    exact mem_pad (a.proper_bounds.union b.proper_bounds)
      (ha.mem_union hb hdim he (hle.trans_lt hneg)) (le_max_right k 0)
  · cases h.symm.trans hd
  · cases h.symm.trans hd

lemma Contained.difference (hblank : 0 < k → ¬a.Blank ∧ ¬b.Blank) :
    (Shape.difference a b k).Contained := by
  intro p d hd hneg
  obtain ⟨e, he, hle⟩ := exists_le_of_difference (hva p) (hvb p) hblank hd
  -- the margin is not needed here, and does no harm
  rw [bounds_difference]
  exact mem_pad a.proper_bounds (ha p e he (hle.trans_lt hneg)) (le_max_right k 0)

/-- An intersection is at least as far away as each of its parts. -/
lemma Contained.intersection (hblank : 0 < k → ¬a.Blank ∧ ¬b.Blank) (hb : b.Contained)
    (hdim : a.dimension = b.dimension) : (Shape.intersection a b k).Contained := by
  intro p d hd hneg
  replace hd : smoothIntersection (a.value p) (b.value p) (k : Exact) = d := hd
  rcases hva p with ⟨hba, hda⟩ | ⟨-, da, hda⟩
  · have hk : k ≤ 0 := nonpos_of_blank_left hblank hba
    rw [hda, smoothIntersection_of_nonpos hk, posInf_max] at hd
    cases hd
  · rcases hvb p with ⟨hbb, hdb⟩ | ⟨-, db, hdb⟩ <;> rw [hda, hdb] at hd
    · have hk : k ≤ 0 := nonpos_of_blank_right hblank hbb
      rw [smoothIntersection_of_nonpos hk, max_posInf] at hd
      cases hd
    · rw [smoothIntersection_coe, coe_inj] at hd
      have hmem := ha p da hda ((hd ▸ le_roundedMax_right db da k).trans_lt hneg)
      have hmem' := hb p db hdb ((hd ▸ le_roundedMax_left db da k).trans_lt hneg)
      rw [← hdim] at hmem'
      exact mem_inter hmem hmem'

lemma Contained.blend (hk : 0 ≤ k ∧ k ≤ 1) (hb : b.Contained) (hdim : a.dimension = b.dimension) :
    (Shape.blend a b k).Contained := by
  intro p d hd hneg
  obtain ⟨e, he, hle⟩ := exists_le_of_blend (hva p) (hvb p) hk hd
  rw [bounds_blend]
  exact mem_pad (a.proper_bounds.union b.proper_bounds)
    (ha.mem_union hb hdim he (hle.trans_lt hneg)) (le_max_right k 0)

omit hvb in
/-- A swept shape is negative only above and below the inside of what is swept. -/
lemma Contained.extrude {h : ℝ} (hdim : a.dimension = .flat) : (Shape.extrude a h).Contained := by
  intro p d hd hneg
  rcases hva ⟨p.x, p.y, 0⟩ with ⟨-, he⟩ | ⟨-, e, he⟩
  · cases (distance_extrude_posInf h he).symm.trans hd
  · rw [distance_extrude_coe h he, coe_inj] at hd
    -- the root is not negative, so the other summand is
    have hmin : min (max e (|p.z| - h)) 0 < 0 := by
      linarith [Real.sqrt_nonneg (max e 0 ^ 2 + max (|p.z| - h) 0 ^ 2)]
    obtain ⟨he0, hz⟩ := max_lt_iff.mp (min_lt_iff.mp hmin |>.resolve_right (lt_irrefl 0))
    have hmem := ha _ e he he0
    rw [hdim] at hmem
    have hz := abs_le.mp (sub_neg.mp hz).le
    exact ⟨hmem.1, hmem.2.1, hz.1, hz.2⟩

end

theorem contained (hr : s.Regular) (hs : s.Sharp) (hc : s.Coherent) (hd : s.Defined) :
    s.Contained := by
  induction s with
  | sphere | box | frustum | circle | rectangle | text =>
    exact (reaches_of_isLeaf hr trivial).contained
  | union a b k iha ihb =>
    exact (iha hr.1 hs.2.1 hc.2.1 hd.2.1).union (hasValue hr.1 hd.2.1) (hasValue hr.2 hd.2.2) hs.1
      (ihb hr.2 hs.2.2 hc.2.2 hd.2.2) hc.1
  | difference a b k iha ihb =>
    exact (iha hr.1 hs.1 hc.2.1 hd.2.1).difference (hasValue hr.1 hd.2.1)
      (hasValue hr.2 hd.2.2) hd.1
  | intersection a b k iha ihb =>
    exact (iha hr.1 hs.1 hc.2.1 hd.2.1).intersection (hasValue hr.1 hd.2.1)
      (hasValue hr.2 hd.2.2) hd.1
      (ihb hr.2 hs.2 hc.2.2 hd.2.2) hc.1
  | blend a b k iha ihb =>
    exact (iha hr.1 hs.2.1 hc.2.1 hd.2.1).blend (hasValue hr.1 hd.2.1) (hasValue hr.2 hd.2.2) hs.1
      (ihb hr.2 hs.2.2 hc.2.2 hd.2.2) hc.1
  | translate inner offset ih =>
    exact (isMoved_translate hr).contained (hasValue hr.1 hd) (ih hr.1 hs hc hd)
  | rotate inner r ih => exact (isMoved_rotate hr).contained (hasValue hr.1 hd) (ih hr.1 hs hc hd)
  | scale inner factor ih =>
    exact (isMoved_scale hr).contained (hasValue hr.1 hd) (ih hr.1 hs hc hd)
  | mirror inner n ih => exact (isMoved_mirror hr).contained (hasValue hr.1 hd) (ih hr.1 hs hc hd)
  | extrude inner h ih => exact (ih hr.1 hs hc.2 hd).extrude (hasValue hr.1 hd) hc.1
  | shell inner t ih => exact hs.elim

lemma HasValue.exists_of_neg (hv : s.HasValue p)
    (h : s.value p < 0) : ∃ d : ℝ, s.value p = d ∧ d < 0 := by
  rcases hv with ⟨-, hd⟩ | ⟨-, d, hd⟩ <;> rw [hd] at h
  · exact absurd h (not_posInf_lt 0)
  · exact ⟨d, hd, h⟩

/-- The box of a solid that is nowhere rounded outwards holds every point at a negative distance, if
no blank shape is blended or combined with a rounding. -/
theorem mem_bounds_of_distance_neg {s : Shape ℝ} (hr : s.Regular) (hs : s.Sharp) (hc : s.Coherent)
    (hsolid : s.dimension = .solid) (hd : s.Defined) (p : Vec3 ℝ)
    (h : s.exact.distance p.exact < 0) : p.exact ∈ s.exact.bounds := by
  obtain ⟨d, hdist, hneg⟩ := (hasValue hr hd p).exists_of_neg h
  have hmem := contained hr hs hc hd p d hdist hneg
  rwa [hsolid] at hmem

/-- A cube with a rounded hole, mirrored. -/
noncomputable def hollowCube : Shape ℝ :=
  mirror (difference (box ⟨(2 : ℕ), (2 : ℕ), (2 : ℕ)⟩) (sphere 1) (1 / (2 : ℕ))) ⟨1, 0, 0⟩

lemma distance_hollowCube : hollowCube.exact.distance (Vec3.exact ⟨-3 / 2, 0, 0⟩) =
    (-3 / 8 : ℝ) := by
  have hback : Vec3.reflect (⟨-3 / 2, 0, 0⟩ : Vec3 ℝ) ⟨1, 0, 0⟩ = ⟨3 / 2, 0, 0⟩ := by
    rw [Vec3.reflect_eq]
    norm_num
  have hbox : boxDistance (Vec3.exact ⟨3 / 2, 0, 0⟩) (Vec3.exact ⟨2, 2, 2⟩) = (-1 / 2 : ℝ) := by
    rw [boxDistance_coe]
    norm_num [abs_of_pos]
  have hsphere : (sphere 1).exact.distance (Vec3.exact ⟨3 / 2, 0, 0⟩) = (1 / 2 : ℝ) := by
    show Vec3.norm (Vec3.exact ⟨3 / 2, 0, 0⟩) - ((1 : ℝ) : Exact) = _
    have hsq : (3 / 2 : ℝ) ^ 2 + 0 ^ 2 + 0 ^ 2 = (3 / 2) ^ 2 := by norm_num
    rw [Vec3.norm_exact, sub_coe, coe_inj, hsq, Real.sqrt_sq (by norm_num)]
    norm_num
  show smoothDifference
    (boxDistance (Vec3.exact (Vec3.reflect ⟨-3 / 2, 0, 0⟩ ⟨1, 0, 0⟩)) (Vec3.exact ⟨2, 2, 2⟩))
    ((sphere 1).exact.distance (Vec3.exact (Vec3.reflect ⟨-3 / 2, 0, 0⟩ ⟨1, 0, 0⟩)))
    ((1 / 2 : ℝ) : Exact) = _
  rw [hback, hbox, hsphere, smoothDifference_coe, coe_inj]
  norm_num [roundedMax]

/-- Inside the wall of the mirrored cube, and so in its box. -/
theorem mem_bounds_hollowCube : hollowCube.exact.distance (Vec3.exact ⟨-3 / 2, 0, 0⟩) < 0 ∧
    Vec3.exact ⟨-3 / 2, 0, 0⟩ ∈ hollowCube.exact.bounds := by
  have hneg : hollowCube.exact.distance (Vec3.exact ⟨-3 / 2, 0, 0⟩) < 0 := by
    rw [distance_hollowCube, zero_eq_coe, coe_lt_coe]
    norm_num
  refine ⟨hneg, mem_bounds_of_distance_neg ?_ ?_ ?_ rfl ?_ _ hneg⟩
  · norm_num [hollowCube, Regular, Vec3.IsUnit, dimension]
  · exact ⟨trivial, trivial⟩
  · exact ⟨rfl, trivial, trivial⟩
  · exact ⟨fun _ => ⟨id, id⟩, trivial, trivial⟩

/-! ## Blank operands -/

/-- A difference with a rounding has no distance where the second part is infinitely far away. -/
lemma smoothDifference_posInf (x : ℝ) (hk : 0 < k) :
    smoothDifference (x : Exact) .posInf k = .nan := by
  have hshare : Scalar.clamp (0.5 - 0.5 * ((x : Exact) + .posInf) / k) 0 1 = (0 : ℝ) := by
    show Scalar.clamp (0.5 - 0.5 * .posInf / (k : Exact)) 0 1 = (0 : ℝ)
    rw [half_posInf_div hk, half_eq_coe]
    exact if_pos trivial
  -- a share of zero does not save the mean: zero times infinity is not a number
  have hmean : Scalar.lerp (x : Exact) .negInf (0 : ℝ) = .nan := by
    show Exact.add x (towards (-0)) = .nan
    rw [towards, neg_zero, if_neg (lt_irrefl 0), if_neg (lt_irrefl 0)]
    rfl
  refine (if_neg (show ¬(k : Exact) ≤ 0 from not_le.mpr hk)).trans ?_
  dsimp only
  rw [hshare]
  show Scalar.lerp (x : Exact) .negInf (0 : ℝ) + _ = _
  rw [hmean]
  rfl

/-- Where a flat shape has no distance, what is swept from it is everywhere between the ends. -/
lemma distance_extrude_nan (h : ℝ) (hd : inner.exact.distance (Vec3.exact ⟨p.x, p.y, 0⟩) = .nan) :
    (extrude inner h).exact.distance p.exact = (|p.z| - h : ℝ) := by
  set w := |p.z| - h
  -- one takes the number, the other its second operand, and so both forget that there was no
  -- distance
  have hmax : Scalar.max .nan (w : Exact) = w := if_pos rfl
  have hupper : Scalar.upper .nan ((0 : ℝ) : Exact) = (0 : ℝ) := if_neg id
  rw [distance_extrude, hd, hmax, hupper, min_coe, upper_coe, Vec2.norm_coe, add_coe, coe_inj,
    zero_pow two_ne_zero, zero_add, Real.sqrt_sq (le_max_right w 0), min_add_max, add_zero]

/-- A disc, cut by a text without glyphs and swept. -/
noncomputable def cutDisc : Shape ℝ :=
  extrude (difference (circle 1) (text ⟨"fonts/Liberation Sans.ttf"⟩ " " []) (1 / (2 : ℕ))) 1

lemma distance_cutDisc (x y : ℝ) : cutDisc.exact.distance (Vec3.exact ⟨x, y, 0⟩) = (-1 : ℝ) := by
  obtain ⟨d, hd, -⟩ := near_circle zero_le_one ⟨x, y, 0⟩
  refine (distance_extrude_nan 1 ?_).trans (by norm_num)
  show smoothDifference ((circle 1).exact.distance (Vec3.exact ⟨x, y, 0⟩)) .posInf
    ((1 / 2 : ℝ) : Exact) = .nan
  rw [hd, smoothDifference_posInf d one_half_pos]

/-- Every condition but that on blank shapes holds of a disc that is cut by a text without glyphs,
and the solid swept from it reaches out of its box. -/
theorem cutDisc_not_mem_bounds :
    (cutDisc.Regular ∧ cutDisc.Sharp ∧ cutDisc.Coherent ∧ cutDisc.dimension = .solid) ∧
    cutDisc.exact.distance (Vec3.exact ⟨100, 0, 0⟩) < 0 ∧ Vec3.exact ⟨100, 0, 0⟩ ∉
      cutDisc.exact.bounds := by
  refine ⟨⟨?_, ⟨trivial, trivial⟩, ⟨rfl, rfl, trivial, trivial⟩, rfl⟩, ?_, fun hmem => ?_⟩
  · norm_num [cutDisc, Regular]
  · rw [distance_cutDisc, zero_eq_coe, coe_lt_coe]
    norm_num
  · have hx : cutDisc.exact.bounds.max.x = (3 / 2 : ℝ) := by
      show (((circle 1).exact.bounds.pad (Scalar.max ((1 / 2 : ℝ) : Exact) (0 : ℝ)))).max.x = _
      rw [max_coe]
      show (pad (.ofCorners ⟨-1, -1, -0⟩ ⟨1, 1, 0⟩) _).max.x = _
      rw [pad_ofCorners (by norm_num [Vec3.Below])]
      show ((1 + max (1 / 2) 0 : ℝ) : Exact) = _
      norm_num
    have hle := hmem.1.2
    rw [hx] at hle
    exact absurd ((coe_le_coe 100 (3 / 2)).mp hle) (by norm_num)

end Shape

end SolidScript
