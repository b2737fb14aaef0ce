import SolidScript.Proofs.Builtin.Plans

/-!
# Errors of operators

A built-in operator fails at the place of its call and names itself: it refuses an argument, does
not find a font, or is given children that do not go together.
-/

namespace SolidScript

/-- The errors of a plan are as `P` says. -/
def Plan.Raises (P : RuntimeError → Prop) (site : CallSite) : Plan → Prop
  | .fold join change => ∀ gs e, Plan.joined site join change gs = .error e → P e
  | _ => True

variable {site : CallSite} {e : RuntimeError}

lemma Plan.Raises.mono {P P' : RuntimeError → Prop} (hP : ∀ e, P e → P' e) {plan : Plan}
    (h : plan.Raises P site) : plan.Raises P' site := by
  cases plan with
  | fold join change => exact fun gs e he => hP e (h gs e he)
  | _ => trivial

lemma Plan.raises_any (site : CallSite) (plan : Plan) : plan.Raises (fun _ => True) site := by
  cases plan with
  | fold => exact fun _ _ _ => trivial
  | _ => trivial

/-- The errors of an operator, and of its plans, are as `P` says. -/
def Builtin.Operator.Raises (P : RuntimeError → Prop) (host : Host) (operator : Builtin.Operator) :
    Prop :=
  ∀ site args, (∀ plan, (operator host site args).run.value = .ok plan → plan.Raises P site) ∧
    ∀ e, (operator host site args).run.value = .error e → P e

/-- An operator fails with nothing but refusals of its call, and so do its plans. -/
def Builtin.Operator.Refuses (host : Host) (operator : Builtin.Operator) : Prop :=
  ∀ site args, (∀ plan, (operator host site args).run.value = .ok plan →
    plan.Raises site.Refusal site) ∧
    ∀ e, (operator host site args).run.value = .error e → site.Refusal e

variable {change : Geometry Float → Except RuntimeError (Geometry Float)}
    {join : Geometry Float → Geometry Float → Geometry Float}

/-- Geometry is joined unless the dimensions differ. -/
lemma Geometry.reduce_error {gs : List (Geometry Float)}
    (h : reduce site join gs = .error e) : e = site.dimensionMismatch := by
  cases gs with
  | nil => cases h
  | cons first rest =>
    induction rest generalizing first with
    | nil => cases h
    | cons g rest ih =>
      rw [reduce, List.foldlM_cons] at h
      split at h
      · exact ih _ h
      · cases h
        rfl

/-- Joining fails when the dimensions differ or the change fails. -/
lemma Plan.joined_error {gs : List (Geometry Float)} (h : joined site join change gs = .error e) :
    e = site.dimensionMismatch ∨ ∃ g, change g = .error e := by
  unfold joined at h
  cases hreduce : Geometry.reduce site join gs with
  | error e' =>
    rw [hreduce] at h
    cases h
    exact .inl (Geometry.reduce_error hreduce)
  | ok joined =>
    rw [hreduce] at h
    cases joined with
    | none => cases h
    | some g =>
      cases hchange : change g with
      | error e' =>
        simp only [bind, Except.bind, hchange] at h
        cases h
        exact .inr ⟨g, hchange⟩
      | ok g' =>
        simp only [bind, Except.bind, hchange] at h
        cases h

/-- The one change that fails is that of solids to be swept. -/
lemma Geometry.IsChange.refusal (h : IsChange site change) {g : Geometry Float}
    (he : change g = .error e) : site.Refusal e := by
  cases h with
  | extrude height center =>
    dsimp only at he
    cases hdimension : g.dimension with
    | solid =>
      rw [hdimension] at he
      cases he
      exact .invalid _
    | flat =>
      rw [hdimension] at he
      cases he
  | _ => cases he

/-- Plans of operators fail with nothing but refusals. -/
lemma Plan.IsJoining.raises {plan : Plan} (h : plan.IsJoining site) :
    plan.Raises site.Refusal site := by
  obtain ⟨hjoin, hchange⟩ := h
  intro gs e he
  obtain rfl | ⟨g, hg⟩ := Plan.joined_error he
  · exact .mismatch
  · exact hchange.refusal hg

namespace Builtin

lemma Promises.raises {name : String} {plan : Plan} (h : Promises name site plan) :
    plan.Raises site.Refusal site := by
  unfold Promises at h
  split at h
  · exact h.raises
  · obtain ⟨⟨⟩ | ⟨⟩⟩ | rfl := h <;> trivial

/-- Every operator that is built in does so. -/
theorem operators_refuse (host : Host) {name : String} {operator : Operator}
    (h : operators.lookup name = some operator) : operator.Refuses host := by
  intro site args
  have hmeets := meets_of_mem site args host _ (mem_of_lookup h)
  unfold Check.Meets at hmeets
  refine ⟨fun plan hplan => ?_, fun e he => ?_⟩
  · rw [hplan] at hmeets
    exact hmeets.raises
  · rw [he] at hmeets
    exact hmeets

/-- The errors of all operators that are built in. -/
theorem operators_raises {P : RuntimeError → Prop} (hP : ∀ site e, CallSite.Refusal site e → P e)
    (host : Host) {name : String} {operator : Operator}
    (h : operators.lookup name = some operator) : operator.Raises P host := by
  intro site args
  obtain ⟨hplan, herror⟩ := operators_refuse host h site args
  exact ⟨fun plan hrun => (hplan plan hrun).mono (hP site), fun e he => hP site e (herror e he)⟩

end Builtin

end SolidScript
