import SolidScript.Proofs.Machine.Reachable

/-!
# Children are taken once

A module that asks for its children gets them, however deep it is inside the bodies of other
invocations: the module around a statement is never one whose children are being built. And what
operators plan takes their children at most once. So no program fails for having asked once too
often.
-/

namespace SolidScript

/-- Children were taken once too often. -/
def RuntimeError.IsReuse (e : RuntimeError) : Prop := ∃ operator, e.cause = .childrenReused operator

/-- To carry out a plan fails as its children do, or as the plan says. -/
lemma Plan.build_holds {E : RuntimeError → Prop} {site : CallSite} {plan : Plan}
    (hplan : plan.Raises E site) {x : Building} {w : World}
    (hx : (x w).Holds (fun _ => True) (fun _ => True) fun e _ => E e) :
    (Plan.build (.ofStream site x) plan w).Holds (fun _ => True) (fun _ => True)
      fun e _ => E e := by
  cases plan with
  | shape g => exact ⟨trivial, fun _ => trivial⟩
  | relay => exact hx
  | fold join change =>
    refine Eval.Holds.build (Eval.Holds.collect hx) fun gs w' _ => ?_
    have hjoined := hplan gs
    rw [show (Supply.ofStream site x).site = site from rfl]
    cases hresult : Plan.joined site join change gs with
    | error e => exact hjoined e hresult
    | ok result =>
      cases result with
      | none => trivial
      | some g => exact ⟨trivial, fun _ => trivial⟩

lemma CallSite.Refusal.not_isReuse {site : CallSite} {e : RuntimeError} (h : site.Refusal e) :
    ¬e.IsReuse := by
  rintro ⟨operator, hcause⟩
  cases h <;> cases hcause

/-- Nothing but children that are taken once too often gives such an error. -/
lemma raises_standard (host : Host) : Raises ⟨.standard, host⟩ fun e => ¬e.IsReuse where
  undefined _ _ := nofun
  unknown _ _ _ := nofun
  binding _ _ := nofun
  deep _ _ := nofun
  located he _ := he
  operator h := Builtin.operators_raises (fun _ _ => CallSite.Refusal.not_isReuse) host h

namespace Machine

variable {env : Environment} {program : Program}

/-- A module whose children are being built is never asked for them. -/
lemma Reachable.children?_ne {m : Machine} (h : Reachable env program m) (herror : m.error = none)
    {ctx : Context} {site : CallSite} {keywords : List (Option String)} {K : List Task}
    (htasks : m.tasks = .ask ctx site keywords :: K) :
    m.world.scopes.children? ctx.frame ≠ some .forcing := by
  obtain ⟨w, vs, cs, rfl⟩ := Machine.eq_running herror htasks
  have hfit : Fit env _ w (.ask ctx site keywords :: K) none := h.fits (raises_any env)
  have hctx : ctx.Fits w.scopes K := hfit.fits.1
  exact hctx.children?_ne (hfit.tail trivial)

end Machine

namespace Evaluation

/-- Children are never taken twice, whatever the program and the settings are. No pull finds an
error that says so, no module is asked for its children while they are being built, and no operator
takes its children once more: it fails only as they fail, or where it refuses at its own place what
it was given, and that is another error. -/
theorem children_taken_once (host : Host) (program : Program) :
    let env : Environment := ⟨.standard, host⟩
    (∀ k e, ((start env program).answer k).1 = .failed e → ¬e.IsReuse) ∧
      (∀ m, Machine.Reachable env program m → m.error = none → ∀ ctx site keywords K,
        m.tasks = .ask ctx site keywords :: K → m.world.scopes.children? ctx.frame ≠
          some .forcing) ∧
      ∀ name operator, env.registry.operators.lookup name = some operator → ∀ site args plan,
        (operator host site args).run.value = .ok plan →
        ∀ (E : RuntimeError → Prop) (x : Building) (w : World),
          (x w).Holds (fun _ => True) (fun _ => True) (fun e _ => E e) →
          (Plan.build (.ofStream site x) plan w).Holds (fun _ => True) (fun _ => True) fun e _ =>
            E e ∨ site.Refusal e ∧ ¬e.IsReuse := by
  intro env
  refine ⟨fun k e he => ?_, fun m hm herror ctx site keywords K htasks => ?_,
    fun name operator h site args plan hplan E x w hx => ?_⟩
  · obtain ⟨m, hm⟩ := Machine.exists_after env program k
    obtain ⟨n, m', hpull, -⟩ := hm.represents.pull
    exact (hm.reachable.pull (raises_standard host) hpull).2.2.2 e he
  · exact hm.children?_ne herror htasks
  · have hrefuses := (Builtin.operators_refuse host h site args).1 plan hplan
    exact Plan.build_holds (hrefuses.mono fun e he => .inr ⟨he, he.not_isReuse⟩)
      (hx.mono (fun _ h => h) (fun _ h => h) fun e _ => .inl)

/-- A module that asks for its children, invoked in the body of an invocation of the same module. -/
def nestedProgram : Program :=
  [.defineModule .start ⟨"m", [], [.invoke .start "children" [] []]⟩,
    .invoke .start "m" [] [.invoke .start "m" [] [.invoke .start "u" [] []]]]

/-- An environment with everything built in, where two calls may be in progress. -/
def smallEnvironment : Environment := ⟨.standard, narrowEnvironment.host⟩

/-- The machine that has come to the inner module. -/
def nestedMachine : Machine := (fun m => (m.move smallEnvironment).next)^[12] (.start nestedProgram)

/-- The inner module asks for its children while those of the outer one are being built, and is
given them. They fail for another reason. -/
theorem children_taken_once_nested :
    (∃ ctx site keywords K, nestedMachine.tasks = .ask ctx site keywords :: K ∧
        (∃ id f, Arena.get? nestedMachine.world.scopes id = some f ∧ f.children = some .forcing) ∧
        nestedMachine.world.scopes.children? ctx.frame ≠ some .forcing) ∧
      ∃ e, ((start smallEnvironment nestedProgram).answer 0).1 = .failed e ∧ ¬e.IsReuse := by
  obtain ⟨hfound, hasked, -⟩ := children_taken_once narrowEnvironment.host nestedProgram
  have hreachable : Machine.Reachable smallEnvironment nestedProgram nestedMachine :=
    .iterate .start 12
  have htasks : nestedMachine.tasks = .ask _ _ _ :: _ := rfl
  have hne := hasked _ hreachable rfl _ _ _ _ htasks
  have hfailed : ((start smallEnvironment nestedProgram).answer 0).1 =
      .failed ⟨.unknown .operator "u", some .start⟩ := rfl
  exact ⟨⟨_, _, _, _, htasks, ⟨⟨1, 0⟩, _, rfl, rfl⟩, hne⟩, _, hfailed, hfound 0 _ hfailed⟩

end Evaluation

end SolidScript
