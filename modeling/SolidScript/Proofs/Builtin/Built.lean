import SolidScript.Proofs.Builtin.Errors
import SolidScript.Proofs.Geometry.Dimension

/-!
# The geometry that operators make

What comes of the plans of operators is put together from bodies in few ways. Geometry that is
joined has one dimension, what is swept is flat, and flat geometry is turned about the third axis
only. Everything else about geometry that a program makes follows from this.
-/

namespace SolidScript

open List

variable {site : CallSite} {join : Geometry Float → Geometry Float → Geometry Float}
  {change : Geometry Float → Except RuntimeError (Geometry Float)} {G : Geometry Float → Prop}

/-! ## Joining children -/

variable {gs : List (Geometry Float)} {g : Geometry Float}

lemma Geometry.reduce_holds (hjoin : ∀ a b, G a → G b → b.dimension = a.dimension → G (join a b))
    (hgs : ∀ g ∈ gs, G g) (h : reduce site join gs = .ok (some g)) : G g := by
  cases gs with
  | nil => cases h
  | cons first rest =>
    induction rest generalizing first with
    | nil =>
      cases h
      exact hgs g mem_cons_self
    | cons next rest ih =>
      obtain ⟨hfirst, hrest⟩ := forall_mem_cons.mp hgs
      obtain ⟨hnext, hrest⟩ := forall_mem_cons.mp hrest
      rw [reduce, foldlM_cons] at h
      split at h
      · rename_i hdimension
        exact ih (join first next)
          (forall_mem_cons.mpr ⟨hjoin _ _ hfirst hnext hdimension, hrest⟩) h
      · cases h

variable {g' : Geometry Float}

/-- Geometry of both dimensions is not joined. -/
lemma Geometry.reduce_eq_error (hjoin : ∀ a b, (join a b).dimension = a.dimension) (hg : g ∈ gs)
    (hg' : g' ∈ gs) (hne : g.dimension ≠ g'.dimension) :
    reduce site join gs = .error site.dimensionMismatch := by
  cases gs with
  | nil => exact absurd hg not_mem_nil
  | cons first rest =>
    -- one of the two differs from the first, whatever that one is
    have hother : ∃ h ∈ rest, h.dimension ≠ first.dimension := by
      by_cases hfirst : g.dimension = first.dimension
      · refine ⟨g', (mem_cons.mp hg').resolve_left fun heq => ?_,
          fun heq => hne (hfirst.trans heq.symm)⟩
        exact hne (heq ▸ hfirst)
      · refine ⟨g, (mem_cons.mp hg).resolve_left fun heq => ?_, hfirst⟩
        exact hfirst (heq ▸ rfl)
    clear hg hg' hne
    induction rest generalizing first with
    | nil => exact absurd hother.choose_spec.1 not_mem_nil
    | cons next rest ih =>
      rw [reduce, foldlM_cons]
      split
      · -- the joined geometry has the dimension of the first, so the other still differs
        rename_i hnext
        obtain ⟨h, hmem, hdiffers⟩ := hother
        refine ih (join first next) ⟨h, (mem_cons.mp hmem).resolve_left fun heq => ?_, ?_⟩
        · exact hdiffers (heq ▸ hnext)
        · rw [hjoin]
          exact hdiffers
      · rfl

/-- The geometry that comes of a plan has `G` if the children have. -/
def Plan.Keeps (G : Geometry Float → Prop) (site : CallSite) : Plan → Prop
  | .shape g => G g
  | .fold join change =>
    ∀ gs g, (∀ h ∈ gs, G h) → Plan.joined site join change gs = .ok (some g) → G g
  | .relay => True

/-- Nothing is asked of the geometry that comes of a plan. -/
lemma Plan.keeps_any (site : CallSite) (plan : Plan) : plan.Keeps (fun _ => True) site := by
  cases plan with
  | fold => exact fun _ _ _ _ => trivial
  | _ => trivial

lemma Plan.keeps_fold (hjoin : ∀ a b, G a → G b → b.dimension = a.dimension → G (join a b))
    (hchange : ∀ g g', G g → change g = .ok g' → G g') : (Plan.fold join change).Keeps G site := by
  intro gs g hgs hjoined
  unfold joined at hjoined
  cases hreduce : Geometry.reduce site join gs with
  | error e =>
    rw [hreduce] at hjoined
    cases hjoined
  | ok reduced =>
    rw [hreduce] at hjoined
    cases reduced with
    | none => cases hjoined
    | some h =>
      simp only [bind, Except.bind] at hjoined
      cases hresult : change h with
      | error e =>
        rw [hresult] at hjoined
        cases hjoined
      | ok g' =>
        rw [hresult] at hjoined
        cases hjoined
        exact hchange h g (Geometry.reduce_holds hjoin hgs hreduce) hresult

lemma Plan.joined_eq_error (hjoin : ∀ a b, (join a b).dimension = a.dimension) (hg : g ∈ gs)
    (hg' : g' ∈ gs) (hne : g.dimension ≠ g'.dimension) :
    Plan.joined site join change gs = .error site.dimensionMismatch := by
  rw [joined, Geometry.reduce_eq_error hjoin hg hg' hne]
  rfl

/-! ## Geometry that is put together -/

namespace Geometry

/-- The ways in which operators put geometry together. -/
inductive Built : Geometry Float → Prop where
  | primitive {g : Geometry Float} (hg : g.IsPrimitive) : Built g
  | join {f : Geometry Float → Geometry Float → Geometry Float} (hf : IsJoin f)
    {a b : Geometry Float} (ha : Built a)
    (hb : Built b) (hdimension : b.dimension = a.dimension) : Built (f a b)
  | translate {g : Geometry Float} (hg : Built g) (offset : Vec3 Float) : Built (g.translate offset)
  | rotate {g : Geometry Float} (hg : Built g) {rotation : Rotation Float}
    (hlevel : g.dimension = .flat → ∃ angle, rotation = .ofAxisAngle ⟨0, 0, 1⟩ angle) :
    Built (g.rotate rotation)
  | scale {g : Geometry Float} (hg : Built g) (factor : Vec3 Float) : Built (g.scale factor)
  | mirror {g : Geometry Float} (hg : Built g) (normal : Vec3 Float) : Built (g.mirror normal)
  | extrude {g : Geometry Float} (hg : Built g) (hflat : g.dimension = .flat) (height : Float) :
    Built (g.extrude height)
  | shell {g : Geometry Float} (hg : Built g) (thickness : Float) : Built (g.shell thickness)

lemma IsJoin.dimension_eq (h : IsJoin join) (a b : Geometry Float) :
    (join a b).dimension = a.dimension := by
  cases h <;> rfl

namespace Built

variable {g : Geometry Float}

/-- Flat geometry turns in its plane. -/
lemma turn (hg : g.Built) (angles : Vec3 Float) : (Builtin.turn angles g).Built := by
  unfold Builtin.turn
  cases hdimension : g.dimension with
  | flat => exact hg.rotate fun _ => ⟨_, rfl⟩
  | solid =>
    -- one turn about each axis, left out where the angle is zero
    have hstep {h : Geometry Float} (hh : h.Built ∧ h.dimension = .solid) (c : Bool)
      (rotation : Rotation Float) :
        (if c then h.rotate rotation else h).Built ∧
        (if c then h.rotate rotation else h).dimension = .solid := by
      cases c with
      | true =>
        exact ⟨hh.1.rotate fun hflat => absurd (hh.2.symm.trans hflat) Dimension.noConfusion, hh.2⟩
      | false => exact hh
    exact (hstep (hstep (hstep ⟨hg, hdimension⟩ _ _) _ _) _ _).1

lemma changed (hg : g.Built) (hchange : IsChange site change) (h : change g = .ok g') :
    g'.Built := by
  cases hchange with
  | keep => exact Except.ok.inj h ▸ hg
  | translate offset => exact Except.ok.inj h ▸ hg.translate offset
  | turn angles => exact Except.ok.inj h ▸ hg.turn angles
  | scale factor => exact Except.ok.inj h ▸ hg.scale factor
  | mirror normal => exact Except.ok.inj h ▸ hg.mirror normal
  | shell thickness => exact Except.ok.inj h ▸ hg.shell thickness
  | extrude height center =>
    dsimp only at h
    cases hdimension : g.dimension with
    | solid =>
      rw [hdimension] at h
      cases h
    | flat =>
      rw [hdimension] at h
      cases center with
      | true => exact Except.ok.inj h ▸ hg.extrude hdimension height
      | false => exact Except.ok.inj h ▸ (hg.extrude hdimension height).translate _

/-- The tag is right, and the parts go together. -/
theorem isSound (hg : g.Built) : g.IsSound := by
  induction hg with
  | primitive hg => cases hg <;> exact ⟨rfl, trivial⟩
  | join hf ha hb hdimension iha ihb =>
    have hparts := iha.dimension.symm.trans (hdimension.symm.trans ihb.dimension)
    cases hf <;> exact ⟨iha.dimension, hparts, iha.coherent, ihb.coherent⟩
  | translate _ offset ih => exact ⟨ih.dimension, ih.coherent⟩
  | rotate _ _ ih => exact ⟨ih.dimension, ih.coherent⟩
  | scale _ factor ih => exact ⟨ih.dimension, ih.coherent⟩
  | mirror _ normal ih => exact ⟨ih.dimension, ih.coherent⟩
  | extrude _ hflat height ih => exact ⟨rfl, ih.dimension.symm.trans hflat, ih.coherent⟩
  | shell _ thickness ih => exact ⟨ih.dimension, ih.coherent⟩

end Built

end Geometry

/-! ## Plans of operators -/

/-- The plans of the operators that are built in. -/
def Plan.IsStandard (site : CallSite) (plan : Plan) : Prop := plan.IsJoining site ∨ plan.IsBody ∨
    plan = .relay

/-- The plans of operators keep to built geometry. -/
lemma Plan.IsStandard.keeps_built {plan : Plan} (h : plan.IsStandard site) :
    plan.Keeps Geometry.Built site := by
  rcases h with ⟨hjoin, hchange⟩ | (⟨hg⟩ | ⟨hg, offset⟩) | rfl
  · exact Plan.keeps_fold (fun _ _ ha hb hdimension => .join hjoin ha hb hdimension) fun _ _ hg h =>
      hg.changed hchange h
  · exact .primitive hg
  · exact .translate (.primitive hg) offset
  · trivial

namespace Builtin

lemma Promises.isStandard {name : String} {plan : Plan} (h : Promises name site plan) :
    plan.IsStandard site := by
  unfold Promises at h
  split at h
  · exact .inl h
  · exact .inr h

/-- Operators result in nothing but the plans that their names promise. -/
lemma promises_of_lookup {name : String} {operator : Operator}
    (h : operators.lookup name = some operator) {host : Host} {args : Arguments} {plan : Plan}
    (hplan : (operator host site args).run.value = .ok plan) : Promises name site plan := by
  have hmeets := meets_of_mem site args host _ (mem_of_lookup h)
  unfold Check.Meets at hmeets
  rw [hplan] at hmeets
  exact hmeets

/-- Operators that join their children are there, and their plans do so. -/
lemma exists_of_mem_joining {name : String} (h : name ∈ joining) :
    ∃ operator : Operator, operators.lookup name = some operator ∧ ∀ host site args plan,
      (operator host site args).run.value = .ok plan → plan.IsJoining site := by
  have hsome : ∀ name ∈ joining, (operators.lookup name).isSome := by decide
  obtain ⟨operator, hoperator⟩ := Option.isSome_iff_exists.mp (hsome name h)
  refine ⟨operator, hoperator, fun host site args plan hplan => ?_⟩
  have hpromises := promises_of_lookup hoperator hplan
  rwa [Promises, if_pos h] at hpromises

end Builtin

end SolidScript
