import SolidScript.Proofs.Geometry.Conservative

/-!
# Margins of boxes

A union with a rounding, and a wall, are negative where their parts have small positive distances.
The margin that their boxes get is enough if the box of every part comes as near to a point as the
distance of the part says. A scaling by different factors breaks that: its distance is too small
along the longer axes.
-/

namespace SolidScript

open Exact Bounds Vec3

/-! ## Boxes that reach every point -/

lemma Dimension.place_place (dim : Dimension) (p : Vec3 ℝ) :
    dim.place (dim.place p) = dim.place p := by cases dim <;> rfl

lemma Vec3.exists_towards {r m : ℝ} (hr : 0 ≤ r) (hm : 0 ≤ m) (dim : Dimension) {p q : Vec3 ℝ}
    (hp : dim.place p = p) (hq : dim.place q = q) (h : p.gapSq q ≤ (r + m) ^ 2) :
    ∃ q', dim.place q' = q' ∧ q'.gapSq q ≤ m ^ 2 ∧ p.gapSq q' ≤ r ^ 2 := by
  -- the point divides the way in the ratio of `m` to `r`
  obtain ⟨t, hrt, hmt⟩ : ∃ t : ℝ, (1 - t) * (r + m) = r ∧ t * (r + m) = m := by
    rcases (add_nonneg hr hm).eq_or_lt with h0 | h0
    · exact ⟨0, by linarith, by linarith⟩
    · refine ⟨m / (r + m), ?_, div_mul_cancel₀ m h0.ne'⟩
      rw [sub_mul, one_mul, div_mul_cancel₀ m h0.ne', add_sub_cancel_right]
  refine ⟨⟨q.x + t * (p.x - q.x), q.y + t * (p.y - q.y), q.z + t * (p.z - q.z)⟩, ?_, ?_, ?_⟩
  · cases dim with
    | flat =>
      have hpz : p.z = 0 := congrArg z hp.symm
      have hqz : q.z = 0 := congrArg z hq.symm
      simp [Dimension.place, hpz, hqz]
    | solid => rfl
  · calc _ = t ^ 2 * p.gapSq q := by unfold gapSq; ring
      _ ≤ t ^ 2 * (r + m) ^ 2 := mul_le_mul_of_nonneg_left h (sq_nonneg t)
      _ = m ^ 2 := by rw [← mul_pow, hmt]
  · calc _ = (1 - t) ^ 2 * p.gapSq q := by unfold gapSq; ring
      _ ≤ (1 - t) ^ 2 * (r + m) ^ 2 := mul_le_mul_of_nonneg_left h (sq_nonneg (1 - t))
      _ = r ^ 2 := by rw [← mul_pow, hrt]

namespace Shape

variable {s : Shape ℝ}

section

variable {s t : Shape ℝ} {p : Vec3 ℝ} {r m : ℝ}

lemma Near.mono {r' : ℝ} (hr : 0 ≤ r) (h : s.Near p r) (hle : r ≤ r') : s.Near p r' := by
  obtain ⟨q, hplane, hq, hgap⟩ := h
  exact ⟨q, hplane, hq, hgap.trans (pow_le_pow_left₀ hr hle 2)⟩

/-- A margin brings a box nearer. -/
lemma Near.of_pad {B : Bounds Exact} (hB : B.Proper) (ht : t.exact.bounds = B.pad m)
    (hdim : t.dimension = s.dimension) (hmem : ∀ q : Vec3 ℝ, q.exact ∈ s.exact.bounds → q.exact ∈ B)
    (hr : 0 ≤ r) (hm : 0 ≤ m) (h : s.Near p (r + m)) : t.Near p r := by
  obtain ⟨q, hplane, hq, hgap⟩ := h
  -- going from the point of the box towards `p`, the margin is used up first
  obtain ⟨q', hplane', hmargin, hgap'⟩ :=
    exists_towards hr hm s.dimension (s.dimension.place_place p) hplane hgap
  obtain ⟨hx, hy, hz⟩ := abs_sub_le hm hmargin
  refine ⟨q', hdim ▸ hplane', ?_, hdim ▸ hgap'⟩
  rw [ht]
  exact mem_pad_of_near hB (hmem q hq) hx hy hz

end

/-! ## Nodes with a margin -/

section

variable {a b : Shape ℝ} {k d : ℝ} {p : Vec3 ℝ}

/-- What is near one of two shapes is near the box around both. -/
lemma Reaches.near_of_union (ha : a.Reaches) (hb : b.Reaches) (hdim : a.dimension = b.dimension)
    {t : Shape ℝ} {e m : ℝ} (ht : t.exact.bounds = (a.exact.bounds.union b.exact.bounds).pad m)
    (htdim : t.dimension = a.dimension) (hm : 0 ≤ m) (he : a.value p = e ∨ b.value p = e)
    (hle : e ≤ d + m) : t.Near p (max d 0) := by
  -- the part is within the distance and the margin, and the margin is what its box has gained
  have hmax : max e 0 ≤ max d 0 + m :=
    max_le (hle.trans (add_le_add_left (le_max_left d 0) m)) (add_nonneg (le_max_right d 0) hm)
  have hproper := a.proper_bounds.union b.proper_bounds
  rcases he with he | he
  · refine Near.of_pad hproper ht htdim (fun q hq => ?_) (le_max_right d 0) hm
      ((ha p e he).mono (le_max_right e 0) hmax)
    exact mem_union_left a.proper_bounds b.proper_bounds hq
  · refine Near.of_pad hproper ht (htdim.trans hdim) (fun q hq => ?_) (le_max_right d 0) hm
      ((hb p e he).mono (le_max_right e 0) hmax)
    exact mem_union_right a.proper_bounds b.proper_bounds hq

lemma Reaches.union (hva : ∀ p, a.HasValue p) (hvb : ∀ p, b.HasValue p) (ha : a.Reaches)
    (hb : b.Reaches) (hdim : a.dimension = b.dimension) : (Shape.union a b k).Reaches := by
  intro p d hd
  rcases union_cases (hva p) (hvb p) k with ⟨d', e, hd', he, hle⟩ | h | h
  · obtain rfl : d = d' := (coe_inj d d').mp (hd.symm.trans hd')
    exact ha.near_of_union hb hdim (bounds_union a b k) rfl (le_max_right k 0) he hle
  · cases h.symm.trans hd
  · cases h.symm.trans hd

lemma Reaches.blend (hk : 0 ≤ k ∧ k ≤ 1) (hva : ∀ p, a.HasValue p) (hvb : ∀ p, b.HasValue p)
    (ha : a.Reaches) (hb : b.Reaches) (hdim : a.dimension = b.dimension) :
    (Shape.blend a b k).Reaches := by
  intro p d hd
  obtain ⟨e, he, hle⟩ := exists_le_of_blend (hva p) (hvb p) hk hd
  exact ha.near_of_union hb hdim (bounds_blend a b k) rfl (le_max_right k 0) he
    (by linarith [le_max_right k 0])

lemma Reaches.difference (hva : ∀ p, a.HasValue p) (hvb : ∀ p, b.HasValue p)
    (hblank : 0 < k → ¬a.Blank ∧ ¬b.Blank) (ha : a.Reaches) : (Shape.difference a b k).Reaches := by
  intro p d hd
  obtain ⟨e, he, hle⟩ := exists_le_of_difference (hva p) (hvb p) hblank hd
  have hmax : max e 0 ≤ max d 0 + max k 0 :=
    (max_le_max_right 0 hle).trans (le_add_of_nonneg_right (le_max_right k 0))
  exact Near.of_pad (s := a) a.proper_bounds (bounds_difference a b k) rfl (fun _ hq => hq)
    (le_max_right d 0) (le_max_right k 0)
    ((ha p e he).mono (le_max_right e 0) hmax)

/-- The surface of a wall is half its thickness away from the surface of the shape. -/
lemma exists_le_of_shell {t : ℝ} (hva : a.HasValue p) (hd : (shell a t).value p = d) :
    ∃ e : ℝ, a.value p = e ∧ e ≤ d + t / 2 := by
  replace hd : Scalar.abs (a.value p) - (t : Exact) / 2.0 = d := hd
  rw [two_eq_coe, div_coe _ two_ne_zero] at hd
  rcases hva with ⟨-, he⟩ | ⟨-, e, he⟩ <;> rw [he] at hd
  · cases hd
  · rw [abs_coe, sub_coe, coe_inj] at hd
    exact ⟨e, he, by linarith [le_abs_self e]⟩

lemma Reaches.shell {t : ℝ} (ht : 0 ≤ t) (hva : ∀ p, a.HasValue p) (ha : a.Reaches) :
    (Shape.shell a t).Reaches := by
  intro p d hd
  obtain ⟨e, he, hle⟩ := exists_le_of_shell (hva p) hd
  have hmax : max e 0 ≤ max d 0 + t / 2 :=
    max_le (hle.trans (add_le_add_left (le_max_left d 0) _)) (by linarith [le_max_right d 0])
  exact Near.of_pad (s := a) a.proper_bounds (bounds_shell a t) rfl (fun _ hq => hq)
    (le_max_right d 0) (by linarith)
    ((ha p e he).mono (le_max_right e 0) hmax)

lemma Reaches.extrude {h : ℝ} (hh : 0 ≤ h) (hflat : a.dimension = .flat) (hva : ∀ p, a.HasValue p)
    (ha : a.Reaches) : (Shape.extrude a h).Reaches := by
  intro p d hd
  rcases hva ⟨p.x, p.y, 0⟩ with ⟨-, he⟩ | ⟨-, e, he⟩
  · cases (distance_extrude_posInf h he).symm.trans hd
  · rw [distance_extrude_coe h he, coe_inj] at hd
    exact hd ▸ near_extrude hh hflat (ha _ e he)

end

/-! ## Moved shapes -/

/-- A motion stretches no distance by more than the factor. -/
lemma IsMoved.reaches {inner : Shape ℝ} {back forth : Vec3 ℝ → Vec3 ℝ} {c : ℝ}
    (h : s.IsMoved inner back forth c)
    (hgap : ∀ p q, inner.dimension.place p = p → inner.dimension.place q = q →
      (forth p).gapSq (forth q) = c ^ 2 * p.gapSq q) (hv : ∀ p, inner.HasValue p)
    (hin : inner.Reaches) : s.Reaches := by
  intro p d hd
  obtain ⟨e, he, rfl⟩ := h.exists_value (hv _) hd
  obtain ⟨q, hplane, hq, hle⟩ := hin (back p) e he
  -- the nearest point of the inner box, moved forth, is near enough
  have hforth : inner.dimension.place (forth q) = forth q := by rw [← h.motion.forth_place, hplane]
  refine ⟨forth q, h.dimension ▸ hforth, h.mem q hq, ?_⟩
  calc (s.dimension.place p).gapSq (forth q)
      = (forth (inner.dimension.place (back p))).gapSq (forth q) := by
        rw [h.motion.forth_place_back, h.dimension]
    _ = c ^ 2 * (inner.dimension.place (back p)).gapSq q :=
      hgap _ _ (inner.dimension.place_place _) hplane
    _ ≤ c ^ 2 * max e 0 ^ 2 := mul_le_mul_of_nonneg_left hle (sq_nonneg c)
    _ = max (e * c) 0 ^ 2 := by rw [← mul_pow, mul_comm c, max_mul_of_nonneg _ _ h.pos.le, zero_mul]

/-- The factors of a scaling agree; of a flat shape only the first two matter, and they are not the
larger ones. -/
def IsUniform (factor : Vec3 ℝ) (dim : Dimension) : Prop :=
  |factor.x| = |factor.y| ∧ |factor.x| ≤ |factor.z| ∧ (dim = .solid → |factor.x| = |factor.z|)

lemma IsUniform.gapSq_times {factor : Vec3 ℝ} {dim : Dimension} (h : IsUniform factor dim)
    {p q : Vec3 ℝ} (hp : dim.place p = p) (hq : dim.place q = q) :
    (p.times factor).gapSq (q.times factor) =
      min (min |factor.x| |factor.y|) |factor.z| ^ 2 * p.gapSq q := by
  obtain ⟨hxy, hxz, hsolid⟩ := h
  rw [← hxy, min_self, min_eq_left hxz, sq_abs]
  have hy : factor.y ^ 2 = factor.x ^ 2 := by rw [← sq_abs, ← hxy, sq_abs]
  show (p.x * factor.x - q.x * factor.x) ^ 2 + (p.y * factor.y - q.y * factor.y) ^ 2 +
    (p.z * factor.z - q.z * factor.z) ^ 2 =
      factor.x ^ 2 * ((p.x - q.x) ^ 2 + (p.y - q.y) ^ 2 + (p.z - q.z) ^ 2)
  cases dim with
  | flat =>
    have hpz : p.z = 0 := congrArg z hp.symm
    have hqz : q.z = 0 := congrArg z hq.symm
    rw [hpz, hqz]
    linear_combination (p.y - q.y) ^ 2 * hy
  | solid =>
    have hz : factor.z ^ 2 = factor.x ^ 2 := by rw [← sq_abs, ← hsolid rfl, sq_abs]
    linear_combination (p.y - q.y) ^ 2 * hy + (p.z - q.z) ^ 2 * hz

/-! ## Trees -/

/-- There are no intersections, scalings are by one factor, means have weights between zero and one,
and walls have a thickness. What is cut away does not matter. -/
def Measured : Shape ℝ → Prop
  | sphere _ | box _ | frustum _ _ _ | circle _ | rectangle _ | text _ _ _ => True
  | union a b _ => a.Measured ∧ b.Measured
  | difference a _ _ => a.Measured
  | intersection _ _ _ => False
  | blend a b k => (0 ≤ k ∧ k ≤ 1) ∧ a.Measured ∧ b.Measured
  | translate inner _ | rotate inner _ | mirror inner _ | extrude inner _ => inner.Measured
  | scale inner factor => IsUniform factor inner.dimension ∧ inner.Measured
  | shell inner t => 0 ≤ t ∧ inner.Measured

/-- Bounds with padding reach every point of a shape. -/
theorem reaches_of_measured (hr : s.Regular) (hc : s.Coherent) (hd : s.Defined) (hm : s.Measured) :
    s.Reaches := by
  induction s with
  | sphere | box | frustum | circle | rectangle | text => exact reaches_of_isLeaf hr trivial
  | union a b k iha ihb =>
    exact .union (hasValue hr.1 hd.2.1) (hasValue hr.2 hd.2.2) (iha hr.1 hc.2.1 hd.2.1 hm.1)
      (ihb hr.2 hc.2.2 hd.2.2 hm.2) hc.1
  | difference a b k iha ihb =>
    exact .difference (hasValue hr.1 hd.2.1) (hasValue hr.2 hd.2.2) hd.1 (iha hr.1 hc.2.1 hd.2.1 hm)
  | intersection a b k iha ihb => exact hm.elim
  | blend a b k iha ihb =>
    exact .blend hm.1 (hasValue hr.1 hd.2.1) (hasValue hr.2 hd.2.2) (iha hr.1 hc.2.1 hd.2.1 hm.2.1)
      (ihb hr.2 hc.2.2 hd.2.2 hm.2.2) hc.1
  | translate inner offset ih =>
    refine (isMoved_translate hr).reaches (fun p q _ _ => ?_) (hasValue hr.1 hd) (ih hr.1 hc hd hm)
    rw [one_pow, one_mul, gapSq_add]
  | rotate inner r ih =>
    refine (isMoved_rotate hr).reaches (fun p q _ _ => ?_) (hasValue hr.1 hd) (ih hr.1 hc hd hm)
    rw [one_pow, one_mul, hr.2.1.gapSq_apply]
  | mirror inner n ih =>
    refine (isMoved_mirror hr).reaches (fun p q _ _ => ?_) (hasValue hr.1 hd) (ih hr.1 hc hd hm)
    rw [one_pow, one_mul, gapSq_reflect _ _ hr.2.1]
  | scale inner factor ih =>
    exact (isMoved_scale hr).reaches (fun p q => hm.1.gapSq_times) (hasValue hr.1 hd)
      (ih hr.1 hc hd hm.2)
  | extrude inner h ih => exact .extrude hr.2 hc.1 (hasValue hr.1 hd) (ih hr.1 hc.2 hd hm)
  | shell inner t ih => exact .shell hm.1 (hasValue hr hd) (ih hr hc hd hm.2)

/-! ## Margins are enough -/

/-- A part that has distances, and whose box comes as near to every point as they say. -/
structure IsTight (s : Shape ℝ) : Prop where
  regular : s.Regular
  defined : s.Defined
  reaches : s.Measured ∨ s.Reaches

/-- The box of the shape gets a margin, and its parts are fit for it. A mean with weights between
zero and one needs only that its parts are contained. -/
def Widened : Shape ℝ → Prop
  | union a b _ => a.IsTight ∧ b.IsTight
  | blend a b k =>
    (0 ≤ k ∧ k ≤ 1) ∧ (a.Regular ∧ a.Defined ∧ a.Contained) ∧ b.Regular ∧ b.Defined ∧ b.Contained
  | shell inner t => 0 < t ∧ inner.IsTight
  | _ => False

lemma IsTight.hasValue (h : s.IsTight) (p : Vec3 ℝ) : s.HasValue p :=
  Shape.hasValue h.regular h.defined p

lemma IsTight.reaches_of_coherent (h : s.IsTight) (hc : s.Coherent) : s.Reaches :=
  h.reaches.elim (reaches_of_measured h.regular hc h.defined) id

lemma Widened.contained (hs : s.Widened) (hc : s.Coherent) : s.Contained := by
  cases s with
  | union a b k =>
    have ha := hs.1.reaches_of_coherent hc.2.1
    have hb := hs.2.reaches_of_coherent hc.2.2
    exact (Reaches.union hs.1.hasValue hs.2.hasValue ha hb hc.1).contained
  | blend a b k =>
    obtain ⟨hk, ⟨hra, hda, ha⟩, hrb, hdb, hb⟩ := hs
    exact ha.blend (hasValue hra hda) (hasValue hrb hdb) hk hb hc.1
  | shell inner t =>
    exact (Reaches.shell hs.1.le hs.2.hasValue (hs.2.reaches_of_coherent hc)).contained
  | _ => exact hs.elim

/-- No distance of such a shape is minus infinity. -/
lemma Widened.exists_of_neg (hs : s.Widened) {p : Vec3 ℝ}
    (h : s.value p < 0) : ∃ d : ℝ, s.value p = d ∧ d < 0 := by
  -- parts may be blank here, so that a distance need not be a number; it is enough that it is not
  -- minus infinity
  suffices hne : s.value p ≠ .negInf by
    cases hdist : s.value p <;> rw [hdist] at h hne
    · exact ⟨_, rfl, h⟩
    · exact absurd h (not_posInf_lt 0)
    · exact absurd rfl hne
    · exact h.elim
  cases s with
  | union a b k =>
    rcases union_cases (hs.1.hasValue p) (hs.2.hasValue p) k with ⟨d, -, hd, -⟩ | hd
      | hd <;> rw [hd] <;> nofun
  | blend a b k =>
    obtain ⟨hk, ⟨hra, hda, -⟩, hrb, hdb, -⟩ := hs
    have hva := (hasValue hra hda p).eq_or
    have hvb := (hasValue hrb hdb p).eq_or
    show Scalar.lerp (a.value p) (b.value p) (k : Exact) ≠ .negInf
    by_cases hinf : a.value p = .posInf ∨ b.value p = .posInf
    · rcases lerp_posInf hva hvb hinf hk.1 with hd | hd <;> rw [hd] <;> nofun
    · rw [not_or] at hinf
      obtain ⟨x, hx⟩ := hva.resolve_left hinf.1
      obtain ⟨y, hy⟩ := hvb.resolve_left hinf.2
      rw [hx, hy, lerp_coe]
      nofun
  | shell inner t =>
    show Scalar.abs (inner.value p) - (t : Exact) / 2.0 ≠ .negInf
    rw [two_eq_coe, div_coe _ two_ne_zero]
    rcases hs.2.hasValue p with ⟨-, he⟩ | ⟨-, e, he⟩ <;> rw [he] <;> nofun
  | _ => exact hs.elim

/-- A margin is enough for a union, a mean with weights between zero and one, and a wall: every
point at a negative distance is in the box, if the boxes of the parts come as near to every point as
their distances say. They do so in particular if the parts are measured. -/
theorem mem_bounds_of_widened {s : Shape ℝ} (hs : s.Widened) (hc : s.Coherent)
    (hsolid : s.dimension = .solid) (p : Vec3 ℝ) (h : s.exact.distance p.exact < 0) :
    p.exact ∈ s.exact.bounds := by
  obtain ⟨d, hd, hneg⟩ := hs.exists_of_neg h
  have hmem := hs.contained hc p d hd hneg
  rwa [hsolid] at hmem

/-- Two balls that are rounded into each other. -/
noncomputable def ballPair : Shape ℝ :=
  union (sphere 1) (translate (sphere 1) ⟨(5 : ℕ) / (2 : ℕ), 0, 0⟩) (2 : ℕ)

lemma distance_sphere_one {x d : ℝ} (h : |x| = d + 1) :
    (sphere 1).exact.distance (Vec3.exact ⟨x, 0, 0⟩) = (d : Exact) := by
  show Vec3.norm (Vec3.exact ⟨x, 0, 0⟩) - ((1 : ℝ) : Exact) = _
  have hsq : x ^ 2 + 0 ^ 2 + 0 ^ 2 = x ^ 2 := by ring
  rw [Vec3.norm_exact, sub_coe, coe_inj, hsq, Real.sqrt_sq_eq_abs, h, add_sub_cancel_right]

lemma distance_ballPair : ballPair.exact.distance (Vec3.exact ⟨5 / 4, 0, 0⟩) = (-1 / 4 : ℝ) := by
  have hfirst : (sphere 1).exact.distance (Vec3.exact ⟨5 / 4, 0, 0⟩) = (1 / 4 : ℝ) :=
    distance_sphere_one (by norm_num [abs_of_pos])
  have hback : (⟨5 / 4, 0, 0⟩ : Vec3 ℝ) - ⟨5 / 2, 0, 0⟩ = ⟨-5 / 4, 0, 0⟩ := by
    show Vec3.mk (5 / 4 - 5 / 2 : ℝ) (0 - 0) (0 - 0) = _
    norm_num
  have hsecond : (sphere 1).exact.distance (Vec3.exact ((⟨5 / 4, 0, 0⟩ : Vec3 ℝ) - ⟨5 / 2, 0, 0⟩)) =
      (1 / 4 : ℝ) := by
    rw [hback]
    exact distance_sphere_one (by norm_num [abs_of_neg])
  show smoothUnion ((sphere 1).exact.distance (Vec3.exact ⟨5 / 4, 0, 0⟩))
    ((sphere 1).exact.distance (Vec3.exact ((⟨5 / 4, 0, 0⟩ : Vec3 ℝ) - ⟨5 / 2, 0, 0⟩)))
    ((2 : ℝ) : Exact) = _
  rw [hfirst, hsecond, smoothUnion_coe, coe_inj]
  norm_num [roundedMin]

/-- Between two balls, outside both of them, and in the box of their union. -/
theorem mem_bounds_ballPair : ballPair.exact.distance (Vec3.exact ⟨5 / 4, 0, 0⟩) < 0 ∧
    Vec3.exact ⟨5 / 4, 0, 0⟩ ∈ ballPair.exact.bounds := by
  have hneg : ballPair.exact.distance (Vec3.exact ⟨5 / 4, 0, 0⟩) < 0 := by
    rw [distance_ballPair, zero_eq_coe, coe_lt_coe]
    norm_num
  have hfirst : (sphere 1).IsTight := ⟨zero_le_one, trivial, .inl trivial⟩
  have hsecond : (translate (sphere 1) ⟨5 / 2, 0, 0⟩).IsTight :=
    ⟨⟨zero_le_one, fun _ => rfl⟩, trivial, .inl trivial⟩
  exact ⟨hneg,
    mem_bounds_of_widened (s := ballPair) ⟨hfirst, hsecond⟩ ⟨rfl, trivial, trivial⟩ rfl _ hneg⟩

/-! ## Scalings by different factors -/

/-- A ball that is stretched along the first axis. -/
noncomputable def longBall : Shape ℝ := scale (sphere 1) ⟨10, 1, 1⟩

lemma bounds_longBall : longBall.exact.bounds = .ofCorners ⟨-10, -1, -1⟩ ⟨10, 1, 1⟩ := by
  show (ofCorners ⟨-1, -1, -1⟩ ⟨1, 1, 1⟩).mapCorners (·.times (Vec3.exact ⟨10, 1, 1⟩)) = _
  have hne : (ofCorners ⟨-1, -1, -1⟩ ⟨1, 1, 1⟩).isEmpty ≠ true :=
    Bool.eq_false_iff.mp (isEmpty_ofCorners.mpr (by norm_num [Vec3.Below]))
  have hmap : (ofCorners ⟨-1, -1, -1⟩ ⟨1, 1, 1⟩).corners.map (·.times (Vec3.exact ⟨10, 1, 1⟩)) =
      ((cornersOf ⟨-1, -1, -1⟩ ⟨1, 1, 1⟩).map (·.times ⟨10, 1, 1⟩)).map Vec3.exact := rfl
  rw [mapCorners, if_neg hne, hmap]
  have htimes (x y z : ℝ) : (⟨x, y, z⟩ : Vec3 ℝ).times ⟨10, 1, 1⟩ = ⟨x * 10, y * 1, z * 1⟩ := rfl
  simp only [cornersOf, List.map_cons, List.map_nil, ofPoints, List.foldl_cons, List.foldl_nil,
    insert_empty, insert_ofCorners, Vec3.least, Vec3.most, htimes]
  norm_num

/-- The box of the ball that is stretched holds its inside. -/
lemma contained_longBall : longBall.Contained :=
  contained ⟨zero_le_one, by norm_num, by norm_num, by norm_num⟩ trivial trivial trivial

lemma distance_longBall : longBall.exact.distance (Vec3.exact ⟨15, 0, 0⟩) = (1 / 2 : ℝ) := by
  have hback : (⟨15, 0, 0⟩ : Vec3 ℝ).divide ⟨10, 1, 1⟩ = ⟨3 / 2, 0, 0⟩ := by
    show Vec3.mk (15 / 10 : ℝ) (0 / 1) (0 / 1) = _
    norm_num
  have hball : (sphere 1).exact.distance (Vec3.exact ⟨3 / 2, 0, 0⟩) = (1 / 2 : ℝ) :=
    distance_sphere_one (by norm_num [abs_of_pos])
  rw [longBall, (isMoved_scale ⟨zero_le_one, by norm_num, by norm_num, by norm_num⟩).distance,
    hback, hball]
  norm_num

/-- A wall around a ball that is stretched reaches out of its box, though the box of the ball holds
the ball. -/
theorem wall_not_mem_bounds : longBall.Contained ∧ (shell longBall 2).dimension = .solid ∧
    (shell longBall 2).exact.distance (Vec3.exact ⟨15, 0, 0⟩) < 0 ∧
    Vec3.exact ⟨15, 0, 0⟩ ∉ (shell longBall 2).exact.bounds := by
  refine ⟨contained_longBall, rfl, ?_, ?_⟩
  · show Scalar.abs (longBall.exact.distance (Vec3.exact ⟨15, 0, 0⟩)) - ((2 : ℝ) : Exact) / 2.0 < 0
    rw [distance_longBall, two_eq_coe, div_coe _ two_ne_zero, abs_coe, sub_coe, zero_eq_coe,
      coe_lt_coe]
    norm_num [abs_of_pos]
  · rw [bounds_shell, bounds_longBall, Bounds.pad_ofCorners (by norm_num [Vec3.Below]),
      Bounds.mem_ofCorners]
    intro hmem
    have hx : (15 : ℝ) ≤ 10 + 2 / 2 := hmem.2.1
    norm_num at hx

end Shape

end SolidScript
