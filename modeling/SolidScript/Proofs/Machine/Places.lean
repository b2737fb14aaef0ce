import SolidScript.Proofs.Machine.Acts

/-!
# Errors point into the program

The places that a machine holds are those of its program, and it gives no others to its errors.
-/

namespace SolidScript

/-- An error that a pull finds has a place of the program: nobody is left that could give it one. -/
lemma Machine.Reachable.mentions_of_pull {env : Environment} {program : Program} {m m' : Machine}
    (h : Reachable env program m)
    (hoperators : ∀ name operator, env.registry.operators.lookup name = some operator →
      operator.Refuses env.host) {n : Nat} {e : RuntimeError} {log : Log}
    (hpull : m.pull env n = some (.failed e, log, m')) :
    ∃ pos, e.pos = some pos ∧ program.Mentions pos := by
  obtain ⟨m₁, hm₁, hfound, -⟩ := h.exists_of_pull hpull
  have hrefusal {site : CallSite} {e : RuntimeError} (hsite : program.Mentions site.pos)
    (he : site.Refusal e) :
      ∃ pos, e.pos = some pos ∧ program.Mentions pos := by
    cases he <;> exact ⟨_, rfl, hsite⟩
  let S : Stock :=
    { place := program.Mentions
      operator := (·.Refuses env.host)
      plan := fun site plan => plan.Raises site.Refusal site
      geometry := fun _ => True
      error := fun e => ∃ pos, e.pos = some pos ∧ program.Mentions pos }
  have hS : S.Lawful env :=
    { operator := fun h => hoperators _ _ h
      plan := fun h _ _ plan hplan => (h _ _).1 plan hplan
      refusal := fun h _ hsite _ e he => hrefusal hsite ((h _ _).2 e he)
      keeps := fun _ => Plan.keeps_any _ _
      raises := fun hsite _ h => h.mono fun _ => hrefusal hsite
      located := fun hpos _ => ⟨_, rfl, hpos⟩ }
  have hstocked : m₁.Stocked S := hm₁.stocked hS fun _ hpos => hpos
  rcases move_cases env m₁ with ⟨e, t, K, -, -, hmove⟩ | ⟨e', herror, htasks, hmove⟩
    | ⟨t, K, -, -, hmove⟩ |
    ⟨g, gs, K, -, -, hmove⟩ | ⟨-, -, hmove⟩
  all_goals
    rw [hmove] at hfound
    cases hfound
  have he := hstocked.error _ herror
  rw [htasks] at he
  rcases he with he | ⟨-, pos, hpos⟩
  · exact he
  · exact absurd hpos List.not_mem_nil

namespace Evaluation

/-- Every error that an evaluation stops with points into the program, whatever the settings are: it
has a place, and that is the place of a statement or of an expression of the program. -/
theorem errors_placed (host : Host) (program : Program) (k : Nat) (e : RuntimeError)
    (h : ((start ⟨.standard, host⟩ program).answer k).1 = .failed e) :
    ∃ pos, e.pos = some pos ∧ program.Mentions pos := by
  obtain ⟨m, hm⟩ := Machine.exists_after ⟨.standard, host⟩ program k
  obtain ⟨n, m', hpull, -⟩ := hm.represents.pull
  have hfailed : ((start ⟨.standard, host⟩ program).after k).pull.1 = .failed e := h
  rw [hfailed] at hpull
  exact hm.reachable.mentions_of_pull (fun _ _ => Builtin.operators_refuse host) hpull

/-- A function that lacks an argument, called in the default of a parameter: the error gets the
place of that call. -/
theorem errors_placed_default :
    let host : Host := ⟨{}, ⟨"", []⟩⟩
    let program : Program := [.defineFunction ⟨1, 1⟩ ⟨"f", [⟨"a", none⟩], .undefined ⟨1, 17⟩⟩,
      .defineModule ⟨2, 1⟩ ⟨"m", [⟨"b", some (.call ⟨2, 14⟩ "f" [])⟩], []⟩,
      .invoke ⟨3, 1⟩ "m" [] []]
    ∃ e, ((start ⟨.standard, host⟩ program).answer 0).1 = .failed e ∧ e.pos = some ⟨2, 14⟩ ∧
      program.Mentions ⟨2, 14⟩ := by
  intro host program
  have hfailed : ((start ⟨.standard, host⟩ program).answer 0).1 =
    .failed ⟨.argumentBinding "f" "missing required argument `a`", some ⟨2, 14⟩⟩ := rfl
  obtain ⟨pos, hpos, hmentions⟩ := errors_placed host program 0 _ hfailed
  cases hpos
  exact ⟨_, hfailed, rfl, hmentions⟩

end Evaluation

end SolidScript
